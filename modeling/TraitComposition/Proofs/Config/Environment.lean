import TraitComposition.Config

/-!
What an environment makes of a configuration. A variable that is set must hold one of the words it
accepts. The variables are read one after the other and each is written as soon as it is read, so
an environment can be rejected for its flag when its policy is already in place.
-/
namespace TraitComposition.Config

/-! ### Reading one variable

A variable is read without the blanks around it and in lower case. It is rejected if it is set to
no word that it accepts, and a setting stays what it was if the variable is not set. -/

def wordOf (content : String) : String :=
  Text.lowerBasic (Text.trim content)

def policyWords : List (String × ConflictPolicy) :=
  [("warn", .warn), ("fail", .fail)]

def flagWords : List (String × Bool) :=
  [("1", true), ("true", true), ("yes", true), ("on", true),
    ("0", false), ("false", false), ("no", false), ("off", false)]

section Reading

variable {α : Type}

def Rejected (words : List (String × α)) (content : Option String) : Prop :=
  ∃ text, content = some text ∧ words.lookup (wordOf text) = none

def Overrides (words : List (String × α)) (content : Option String) (before after : α) : Prop :=
  match content with
  | none => after = before
  | some text => words.lookup (wordOf text) = some after

structure Reads (words : List (String × α)) (parse : String → Except Fault α) : Prop where
  accepted : ∀ {content value}, words.lookup (wordOf content) = some value →
    parse content = .ok value
  rejected : ∀ {content}, words.lookup (wordOf content) = none →
    ∃ explanation, parse content = .error (.invalidConfig explanation)

def setting (parse : String → Except Fault α) (content : Option String) (before : α) :
    Except Fault α :=
  match content with
  | none => .ok before
  | some text => parse text

variable {words : List (String × α)} {parse : String → Except Fault α} {content : Option String}
  {before after : α}

private theorem Overrides.not_rejected (overrides : Overrides words content before after) :
    ¬Rejected words content := by
  rintro ⟨text, rfl, unknown⟩
  cases unknown.symm.trans overrides

theorem Overrides.unique {other : α} (overrides : Overrides words content before after)
    (overridesToo : Overrides words content before other) : after = other := by
  cases content with
  | none => exact overrides.trans overridesToo.symm
  | some text => exact Option.some.inj (overrides.symm.trans overridesToo)

private theorem Reads.setting_cases (reads : Reads words parse) (content : Option String)
    (before : α) :
    (Rejected words content ∧
      ∃ explanation, setting parse content before = .error (.invalidConfig explanation)) ∨
    ∃ after, Overrides words content before after ∧ setting parse content before = .ok after := by
  cases content with
  | none => exact .inr ⟨before, rfl, rfl⟩
  | some text =>
      cases known : words.lookup (wordOf text) with
      | none => exact .inl ⟨⟨text, rfl, known⟩, reads.rejected known⟩
      | some value => exact .inr ⟨value, known, reads.accepted known⟩

end Reading

/-! ### The two variables -/

private theorem ofWord?_eq_lookup (word : String) :
    ConflictPolicy.ofWord? word = policyWords.lookup word := by
  simp only [ConflictPolicy.ofWord?, policyWords, List.lookup_cons, List.lookup_nil]
  grind

private theorem flagOfWord?_eq_lookup (word : String) :
    flagOfWord? word = flagWords.lookup word := by
  simp only [flagOfWord?, flagWords, List.lookup_cons, List.lookup_nil]
  grind

private theorem reads_policy : Reads policyWords ConflictPolicy.parse where
  accepted known := by
    rw [ConflictPolicy.parse, ofWord?_eq_lookup, ← wordOf, known]
  rejected unknown := by
    rw [ConflictPolicy.parse, ofWord?_eq_lookup, ← wordOf, unknown]
    exact ⟨_, rfl⟩

private theorem reads_flag (variableName : String) : Reads flagWords (parseFlag variableName) where
  accepted known := by
    rw [parseFlag, flagOfWord?_eq_lookup, ← wordOf, known]
  rejected unknown := by
    rw [parseFlag, flagOfWord?_eq_lookup, ← wordOf, unknown]
    exact ⟨_, rfl⟩

/-! ### The environment -/

private theorem withEnvironment_eq (config : Config) (environment : Environment) :
    config.withEnvironment environment =
      match setting ConflictPolicy.parse environment.conflictPolicy config.conflictPolicy with
      | .error fault => (.error fault, config)
      | .ok conflictPolicy =>
        match setting (parseFlag "MOSAIC_MATERIALIZE_ACCESSORS") environment.materializeAccessors
            config.materializeAccessors with
        | .error fault => (.error fault, { config with conflictPolicy })
        | .ok materializeAccessors => (.ok (), { conflictPolicy, materializeAccessors }) := by
  rw [withEnvironment, applyEnvironment]
  -- Nothing depends on how the two readers work.
  generalize ConflictPolicy.parse = readPolicy, parseFlag "MOSAIC_MATERIALIZE_ACCESSORS" = readFlag
  rcases environment with ⟨none | policyText, none | flagText⟩
  · rfl
  · simp only [setting]
    cases readFlag flagText <;> rfl
  · simp only [setting]
    cases readPolicy policyText <;> rfl
  · simp only [setting]
    cases readPolicy policyText with
    | error fault => rfl
    | ok policy => cases readFlag flagText <;> rfl

structure Overridden (config : Config) (environment : Environment) (result : Except Fault Unit)
    (after : Config) : Prop where
  /-- A variable that is set to none of its words makes it fail, and nothing else does. -/
  fails_iff : (∃ fault, result = .error fault) ↔
    Rejected policyWords environment.conflictPolicy ∨
      Rejected flagWords environment.materializeAccessors
  invalid : ∀ fault, result = .error fault → ∃ explanation, fault = .invalidConfig explanation
  succeeded : result = .ok () →
    Overrides policyWords environment.conflictPolicy config.conflictPolicy after.conflictPolicy ∧
      Overrides flagWords environment.materializeAccessors config.materializeAccessors
        after.materializeAccessors
  /-- If only the flag is rejected, the policy is overridden all the same. -/
  halfway : ¬Rejected policyWords environment.conflictPolicy →
    Rejected flagWords environment.materializeAccessors →
      Overrides policyWords environment.conflictPolicy config.conflictPolicy
        after.conflictPolicy ∧
      after.materializeAccessors = config.materializeAccessors
  /-- So a failure leaves the configuration alone if the policy is rejected or none but the one
  already in place. -/
  kept_iff : ∀ fault, result = .error fault → (after = config ↔
    Rejected policyWords environment.conflictPolicy ∨
      Overrides policyWords environment.conflictPolicy config.conflictPolicy
        config.conflictPolicy)

/-- An environment is rejected if one of its variables is set to none of the words it accepts. Then
the policy may be overridden already; if it is not rejected, each setting is what its variable says,
or unchanged. -/
theorem withEnvironment_outcome (config : Config) (environment : Environment) :
    Overridden config environment (config.withEnvironment environment).1
      (config.withEnvironment environment).2 := by
  rw [withEnvironment_eq]
  rcases reads_policy.setting_cases environment.conflictPolicy config.conflictPolicy with
    ⟨rejected, explanation, read⟩ | ⟨policy, overrides, read⟩
  · -- The policy is rejected before anything is written.
    rw [read]
    exact {
      fails_iff := iff_of_true ⟨_, rfl⟩ (.inl rejected)
      invalid := fun _ failed => ⟨explanation, (Except.error.inj failed).symm⟩
      succeeded := nofun
      halfway := fun accepted => absurd rejected accepted
      kept_iff := fun _ _ => iff_of_true rfl (.inl rejected) }
  · rw [read]
    rcases (reads_flag "MOSAIC_MATERIALIZE_ACCESSORS").setting_cases
        environment.materializeAccessors config.materializeAccessors with
      ⟨rejected, explanation, readToo⟩ | ⟨flag, overridesToo, readToo⟩
    · -- The flag is rejected when the policy is written.
      have kept : { config with conflictPolicy := policy } = config ↔
          policy = config.conflictPolicy :=
        ⟨fun same => congrArg conflictPolicy same, fun same => same ▸ rfl⟩
      rw [readToo]
      exact {
        fails_iff := iff_of_true ⟨_, rfl⟩ (.inr rejected)
        invalid := fun _ failed => ⟨explanation, (Except.error.inj failed).symm⟩
        succeeded := nofun
        halfway := fun _ _ => ⟨overrides, rfl⟩
        kept_iff := fun _ _ => by
          rw [kept, or_iff_right overrides.not_rejected]
          exact ⟨fun same => same ▸ overrides, overrides.unique⟩ }
    · rw [readToo]
      exact {
        fails_iff := iff_of_false nofun
          (not_or.mpr ⟨overrides.not_rejected, overridesToo.not_rejected⟩)
        invalid := nofun
        succeeded := fun _ => ⟨overrides, overridesToo⟩
        halfway := fun _ rejected => absurd rejected overridesToo.not_rejected
        kept_iff := nofun }

def halfAccepted : Environment where
  conflictPolicy := some "fail"
  materializeAccessors := some "sometimes"

/-- An environment whose policy is accepted and whose flag is not is rejected, and the default
configuration has another policy afterwards. -/
theorem withEnvironment_outcome_of_rejected_flag :
    (∃ explanation, (({} : Config).withEnvironment halfAccepted).1 =
        .error (.invalidConfig explanation)) ∧
      (({} : Config).withEnvironment halfAccepted).2.conflictPolicy = .fail ∧
      (({} : Config).withEnvironment halfAccepted).2 ≠ {} := by
  have outcome := withEnvironment_outcome {} halfAccepted
  have rejected : Rejected flagWords halfAccepted.materializeAccessors :=
    ⟨"sometimes", rfl, by decide⟩
  have fails : Overrides policyWords halfAccepted.conflictPolicy .warn .fail := by
    change policyWords.lookup (wordOf "fail") = some .fail
    decide
  rcases outcome.fails_iff.mpr (.inr rejected) with ⟨fault, failed⟩
  rcases outcome.invalid fault failed with ⟨explanation, rfl⟩
  refine ⟨⟨explanation, failed⟩, (outcome.halfway fails.not_rejected rejected).1.unique fails, ?_⟩
  rw [ne_eq, outcome.kept_iff _ failed, not_or]
  exact ⟨fails.not_rejected, fun kept => by cases kept.unique fails⟩

end TraitComposition.Config
