import Mathlib.Data.List.Induction
import Mathlib.Data.List.Nodup
import TraitComposition.MemberTable

/-!
Histories of member tables. Names are defined and deleted, and a name that is there stays until it
is deleted: defining it again neither ends its stay nor begins another. The names of a table are
those whose stay has not ended, in the order in which the stays began, so the history alone decides
which they are and how they follow each other.
-/
namespace TraitComposition

inductive TableEvent where
  | defined (name : String)
  | deleted (name : String)
deriving DecidableEq

namespace TableEvent

/-! ### Stays

A stay of a name begins when the name is defined without being there, and lasts until it is
deleted. Names follow each other in the order in which their stays began. -/

def Holds (history : List TableEvent) (name : String) : Prop :=
  ∃ place, history[place]? = some (defined name) ∧ deleted name ∉ history.drop (place + 1)

structure Enters (history : List TableEvent) (name : String) (place : Nat) : Prop where
  defines : history[place]? = some (defined name)
  stays : deleted name ∉ history.drop (place + 1)
  /-- The name was not there before. -/
  fresh : ¬Holds (history.take place) name

section Stays

variable {history : List TableEvent} {event : TableEvent} {name : String} {place : Nat}

private theorem not_holds_nil (name : String) : ¬Holds [] name := by
  rintro ⟨place, defines, _⟩
  cases defines

private theorem holds_concat : Holds (history ++ [event]) name ↔
    event = defined name ∨ Holds history name ∧ event ≠ deleted name := by
  constructor
  · rintro ⟨place, defines, stays⟩
    by_cases inside : place < history.length
    · rw [List.getElem?_append_left inside] at defines
      rw [List.drop_append_of_le_length inside, List.mem_append, not_or,
        List.mem_singleton] at stays
      exact .inr ⟨⟨place, defines, stays.1⟩, fun ends => stays.2 ends.symm⟩
    · rw [List.getElem?_append_right (Nat.le_of_not_lt inside)] at defines
      exact .inl (List.mem_singleton.mp (List.mem_of_getElem? defines)).symm
  · rintro (rfl | ⟨⟨place, defines, stays⟩, lasts⟩)
    · exact ⟨history.length, List.getElem?_concat_length, by simp⟩
    · have inside : place < history.length := (List.getElem?_eq_some_iff.mp defines).1
      refine ⟨place, by rw [List.getElem?_append_left inside, defines], ?_⟩
      rw [List.drop_append_of_le_length inside, List.mem_append, not_or, List.mem_singleton]
      exact ⟨stays, fun ends => lasts ends.symm⟩

namespace Enters

private theorem lt_length (enters : Enters history name place) : place < history.length :=
  (List.getElem?_eq_some_iff.mp enters.defines).1

theorem concat (enters : Enters history name place) (lasts : event ≠ deleted name) :
    Enters (history ++ [event]) name place where
  defines := by rw [List.getElem?_append_left enters.lt_length, enters.defines]
  stays := by
    rw [List.drop_append_of_le_length enters.lt_length, List.mem_append, not_or,
      List.mem_singleton]
    exact ⟨enters.stays, fun ends => lasts ends.symm⟩
  fresh := by
    rw [List.take_append_of_le_length (Nat.le_of_lt enters.lt_length)]
    exact enters.fresh

private theorem of_not_holds (missing : ¬Holds history name) :
    Enters (history ++ [defined name]) name history.length where
  defines := List.getElem?_concat_length
  stays := by simp
  fresh := by
    rw [List.take_left]
    exact missing

theorem le {other : Nat} (enters : Enters history name place)
    (again : Enters history name other) : other ≤ place := by
  rw [← Nat.not_lt]
  intro later
  -- Otherwise the name was still there when it is said to come.
  apply again.fresh
  refine ⟨place, by rw [List.getElem?_take_of_lt later, enters.defines], fun ends => ?_⟩
  rw [List.drop_take] at ends
  exact enters.stays (List.mem_of_mem_take ends)

private theorem unique {other : Nat} (enters : Enters history name place)
    (again : Enters history name other) : place = other :=
  Nat.le_antisymm (again.le enters) (enters.le again)

end Enters

def EntersBefore (history : List TableEvent) (first second : String) : Prop :=
  ∃ early late, Enters history first early ∧ Enters history second late ∧ early < late

namespace EntersBefore

variable {first second : String}

private theorem concat (before : EntersBefore history first second) (lasts : event ≠ deleted first)
    (lastsToo : event ≠ deleted second) :
    EntersBefore (history ++ [event]) first second := by
  rcases before with ⟨early, late, enters, entersToo, earlier⟩
  exact ⟨early, late, enters.concat lasts, entersToo.concat lastsToo, earlier⟩

private theorem asymm (before : EntersBefore history first second) :
    ¬EntersBefore history second first := by
  rintro ⟨lateToo, earlyToo, again, againToo, later⟩
  rcases before with ⟨early, late, enters, entersToo, earlier⟩
  obtain rfl := entersToo.unique again
  obtain rfl := enters.unique againToo
  exact Nat.lt_asymm earlier later

end EntersBefore

theorem Holds.enters {history : List TableEvent} {name : String} (holds : Holds history name) :
    ∃ place, Enters history name place := by
  induction history using List.reverseRecOn with
  | nil => exact absurd holds (not_holds_nil name)
  | append_singleton history event induction =>
      -- Either the stay goes on from before the last event, or that event begins it.
      by_cases held : Holds history name ∧ event ≠ deleted name
      · rcases induction held.1 with ⟨place, enters⟩
        exact ⟨place, enters.concat held.2⟩
      · rcases holds_concat.mp holds with rfl | still
        · have missing : ¬Holds history name := fun there => held ⟨there, nofun⟩
          exact ⟨history.length, .of_not_holds missing⟩
        · exact absurd still held

end Stays

/-! ### Names in order -/

structure Tells (history : List TableEvent) (names : List String) : Prop where
  nodup : names.Nodup
  /-- A name is among them if it was defined and not deleted since. -/
  listed : ∀ name, name ∈ names ↔ Holds history name
  /-- One comes before another if its stay began before that of the other. -/
  ordered : names.Pairwise (EntersBefore history)

/-- The names of a table after an event: a name that is there keeps its place, a new one goes to the
end, and one that is deleted leaves the others in their order. -/
def alter (names : List String) : TableEvent → List String
  | defined name => if name ∈ names then names else names ++ [name]
  | deleted name => names.filter (· ≠ name)

namespace Tells

variable {history : List TableEvent} {names : List String}

private theorem nil : Tells [] [] where
  nodup := List.nodup_nil
  listed name := iff_of_false List.not_mem_nil (not_holds_nil name)
  ordered := List.Pairwise.nil

theorem ordered_concat (tells : Tells history names) {event : TableEvent} {kept : List String}
    (sublist : kept.Sublist names) (last : ∀ name ∈ kept, event ≠ deleted name) :
    kept.Pairwise (EntersBefore (history ++ [event])) :=
  (tells.ordered.sublist sublist).imp_of_mem fun {first second} member memberToo before =>
    before.concat (last first member) (last second memberToo)

private theorem redefined (tells : Tells history names) {name : String} (member : name ∈ names) :
    Tells (history ++ [defined name]) names where
  nodup := tells.nodup
  listed other := by
    rw [holds_concat, ← tells.listed, defined.injEq]
    constructor
    · exact fun listed => .inr ⟨listed, nofun⟩
    · rintro (rfl | ⟨listed, _⟩)
      · exact member
      · exact listed
  ordered := tells.ordered_concat (List.Sublist.refl names) fun _ _ => nofun

private theorem appended (tells : Tells history names) {name : String} (fresh : name ∉ names) :
    Tells (history ++ [defined name]) (names ++ [name]) where
  nodup := by
    rw [← List.concat_eq_append]
    exact tells.nodup.concat fresh
  listed other := by
    rw [holds_concat, ← tells.listed, List.mem_append, List.mem_singleton, defined.injEq, or_comm,
      eq_comm, and_iff_left nofun]
  ordered := by
    rw [List.pairwise_append]
    refine ⟨tells.ordered_concat (List.Sublist.refl names) fun _ _ => nofun,
      List.pairwise_singleton _ _, ?_⟩
    intro first member second last
    obtain rfl := List.mem_singleton.mp last
    rcases ((tells.listed first).mp member).enters with ⟨early, enters⟩
    have missing : ¬Holds history second := mt (tells.listed second).mpr fresh
    exact ⟨early, history.length, enters.concat nofun, .of_not_holds missing, enters.lt_length⟩

private theorem erased (tells : Tells history names) (name : String) :
    Tells (history ++ [deleted name]) (names.filter (· ≠ name)) where
  nodup := tells.nodup.filter _
  listed other := by
    have differs : deleted name ≠ deleted other ↔ other ≠ name := by
      rw [ne_eq, deleted.injEq, eq_comm]
    rw [holds_concat, ← tells.listed, List.mem_filter, decide_eq_true_eq, or_iff_right nofun,
      differs]
  ordered := by
    refine tells.ordered_concat List.filter_sublist fun other member ends => ?_
    cases ends
    exact of_decide_eq_true (List.mem_filter.mp member).2 rfl

theorem concat (tells : Tells history names) (event : TableEvent) :
    Tells (history ++ [event]) (event.alter names) := by
  cases event with
  | defined name =>
      rw [alter]
      split
      · next member => exact tells.redefined member
      · next fresh => exact tells.appended fresh
  | deleted name => exact tells.erased name

theorem append (tells : Tells history names) (events : List TableEvent) :
    Tells (history ++ events) (events.foldl alter names) := by
  induction events generalizing history names with
  | nil => rwa [List.append_nil]
  | cons event events induction =>
      rw [List.append_cons]
      exact induction (tells.concat event)

example : [defined "b", defined "a", defined "b", deleted "b", defined "c", defined "b"].foldl
    alter [] = ["a", "c", "b"] := by
  decide

theorem of_nodup (nodup : names.Nodup) : Tells (names.map defined) names := by
  induction names using List.reverseRecOn with
  | nil => exact .nil
  | append_singleton names name induction =>
      rw [← List.concat_eq_append, List.nodup_concat] at nodup
      rw [List.map_append]
      exact (induction nodup.2).appended nodup.1

theorem unique {others : List String} (tells : Tells history names)
    (tellsToo : Tells history others) : others = names := by
  have same : others.Perm names := (List.perm_ext_iff_of_nodup tellsToo.nodup tells.nodup).mpr
    fun name => (tellsToo.listed name).trans (tells.listed name).symm
  exact same.eq_of_pairwise (fun _ _ _ _ before after => absurd after before.asymm)
    tellsToo.ordered tells.ordered

end Tells

end TableEvent

/-! ### Tables -/

namespace MemberTable

theorem names_insert (table : MemberTable) (name : String) (descriptor : Descriptor) :
    (table.insert name descriptor).names = (TableEvent.defined name).alter table.names := by
  rw [TableEvent.alter]
  split
  · next member => exact names_insert_of_mem descriptor member
  · next fresh => exact names_insert_of_not_mem descriptor fresh

end MemberTable

end TraitComposition
