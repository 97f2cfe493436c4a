import TraitComposition.Script.Form.Composition
import TraitComposition.Script.Form.Decoration
import TraitComposition.Script.Form.Language
import TraitComposition.Script.Form.Object
import TraitComposition.Script.Form.Recording
import TraitComposition.Script.Form.Settings

/-!
What source means. A scalar stands for itself, a list is a form named by its first
item, and a record has no meaning of its own.
-/
namespace TraitComposition.Script

open Evaluation

def forms : List (String × Operation) :=
  Form.languageForms ++ Form.inspectionForms ++ Form.procedureForms ++ Form.objectForms ++
    Form.compositionForms ++ Form.decorationForms ++ Form.settingsForms ++ Form.recordingForms

def operationNamed (name : String) : Operation :=
  (forms.lookup name).getD fun _ _ => complain ("unknown form " ++ name)

def formValue : List Phrase → Scope → Evaluation Value
  | .mk (.text name) _ _ _ :: arguments, scope => operationNamed name scope arguments
  | _, _ => complain "bad form"

mutual
def phrase : Data → Phrase
  | .null => .mk .null (fun _ => return .null) [] []
  | .boolean flag => .mk (.boolean flag) (fun _ => return .boolean flag) [] []
  | .integer amount =>
      .mk (.integer amount) (fun _ => return .number (.ofInt amount)) [] []
  | .number amount => .mk (.number amount) (fun _ => return .number amount) [] []
  | .text content => .mk (.text content) (fun _ => return .text content) [] []
  | .list items =>
      let parts := phrases items
      .mk (.list items) (formValue parts) parts []
  | .record fields =>
      .mk (.record fields) (fun _ => complain "object is not an expression") []
        (fieldPhrases fields)

def phrases : List Data → List Phrase
  | [] => []
  | item :: items => phrase item :: phrases items

def fieldPhrases : List (String × Data) → List (String × Phrase)
  | [] => []
  | (name, item) :: fields => (name, phrase item) :: fieldPhrases fields
end

def program (source : Data) : Program State :=
  ((phrase source).value {}).program

end TraitComposition.Script
