import TraitComposition.Action

/-!
Runs of actions. A run starts in a world and ends in one, with an answer or a fault;
the equations here say what the basic actions and their combinations come to.
-/
namespace TraitComposition.Action

variable {σ α β : Type}

@[simp] theorem run_pure (answer : α) (world : World σ) :
    (pure answer : Action σ α).run world = (.ok answer, world) := rfl

@[simp] theorem run_throw (fault : Fault) (world : World σ) :
    (throw fault : Action σ α).run world = (.error fault, world) := rfl

/-- What comes after an action runs in the world the action leaves, and only if it
did not fail. -/
theorem run_bind (action : Action σ α) (next : α → Action σ β) (world : World σ) :
    (action >>= next).run world =
      match action.run world with
      | (.ok answer, later) => (next answer).run later
      | (.error fault, later) => (.error fault, later) := by
  change StateT.run (ExceptT.run (ExceptT.bind action next)) world = _
  simp only [Action.run, ExceptT.run, ExceptT.bind, ExceptT.mk, StateT.run, bind, StateT.bind]
  rcases action world with ⟨fault | answer, later⟩ <;> rfl

theorem run_bind_of_ok {action : Action σ α} {world later : World σ} {answer : α}
    (next : α → Action σ β) (ran : action.run world = (.ok answer, later)) :
    (action >>= next).run world = (next answer).run later := by
  rw [run_bind, ran]

theorem run_bind_of_error {action : Action σ α} {world later : World σ} {fault : Fault}
    (next : α → Action σ β) (ran : action.run world = (.error fault, later)) :
    (action >>= next).run world = (.error fault, later) := by
  rw [run_bind, ran]

theorem run_bind_congr {first second : Action σ α} {world : World σ}
    (same : first.run world = second.run world) (next : α → Action σ β) :
    (first >>= next).run world = (second >>= next).run world := by
  rw [run_bind, same, ← run_bind]

theorem reached_bind_pure (action : Action σ α) (answer : β) (world : World σ) :
    ((action >>= fun _ => pure answer).run world).2 = (action.run world).2 := by
  rw [run_bind]
  rcases action.run world with ⟨fault | found, later⟩ <;> rfl

theorem succeeded_of_bind {action : Action σ α} {next : α → Action σ β} {world later : World σ}
    {answer : β} (ran : (action >>= next).run world = (.ok answer, later)) :
    ∃ first between, action.run world = (.ok first, between) ∧
      (next first).run between = (.ok answer, later) := by
  rw [run_bind] at ran
  rcases start : action.run world with ⟨fault | first, between⟩
  · rw [start] at ran
    cases ran
  · rw [start] at ran
    exact ⟨first, between, rfl, ran⟩

theorem foldlM_keeps {next : β → α → Action σ β} (property : World σ → β → Prop)
    (each : ∀ {world later : World σ} {state reached : β} (item : α), property world state →
      (next state item).run world = (.ok reached, later) → property later reached) :
    ∀ {items : List α} {world later : World σ} {state reached : β}, property world state →
      (items.foldlM next state).run world = (.ok reached, later) → property later reached
  | [], _, _, _, _, holds, ran => by
      cases ran
      exact holds
  | item :: items, _, _, _, _, holds, ran => by
      rw [List.foldlM_cons] at ran
      rcases succeeded_of_bind ran with ⟨_, _, ranFirst, ranRest⟩
      exact foldlM_keeps property each (each item holds ranFirst) ranRest

theorem run_eq_of_toOption (action : Action σ α) (world : World σ) (answer : α)
    (answers : (action.run world).1.toOption = some answer) :
    action.run world = (.ok answer, (action.run world).2) := by
  rcases ran : action.run world with ⟨fault | found, later⟩
  · rw [ran] at answers
    cases answers
  · rw [ran] at answers
    cases answers
    rfl

theorem run_eq_of_error (action : Action σ α) (world : World σ) (fault : Fault)
    (fails : (action.run world).1 = .error fault) :
    action.run world = (.error fault, (action.run world).2) :=
  Prod.ext fails rfl

@[simp] theorem run_get (world : World σ) :
    (get : Action σ (World σ)).run world = (.ok world, world) := rfl

@[simp] theorem run_set (next world : World σ) :
    (set next : Action σ PUnit).run world = (.ok ⟨⟩, next) := rfl

@[simp] theorem run_modify (update : World σ → World σ) (world : World σ) :
    (modify update : Action σ PUnit).run world = (.ok ⟨⟩, update world) := rfl

@[simp] theorem run_getStore (world : World σ) :
    (getStore : Action σ Store).run world = (.ok world.store, world) := rfl

@[simp] theorem run_edit (change : Store → α × Store) (world : World σ) :
    (edit change : Action σ α).run world =
      (.ok (change world.store).1, { world with store := (change world.store).2 }) := rfl

@[simp] theorem run_change (update : Store → Store) (world : World σ) :
    (change update : Action σ Unit).run world =
      (.ok (), { world with store := update world.store }) := rfl

@[simp] theorem run_ofExcept (result : Except Fault α) (world : World σ) :
    (ofExcept result : Action σ α).run world = (result, world) := by
  cases result <;> rfl

@[simp] theorem run_outcome (action : Action σ α) (world : World σ) :
    (outcome action).run world = (.ok (action.run world).1, (action.run world).2) := rfl

theorem run_naming (name : String) (action : Action σ α) (world : World σ) :
    (naming name action).run world =
      ((action.run world).1.mapError (Fault.withMember name), (action.run world).2) := rfl

/-! Looking at the store or changing it never fails, so what follows runs at once. -/

@[simp] theorem run_getStore_bind (next : Store → Action σ β) (world : World σ) :
    (getStore >>= next).run world = (next world.store).run world := rfl

@[simp] theorem run_edit_bind (change : Store → α × Store) (next : α → Action σ β)
    (world : World σ) :
    (edit change >>= next).run world =
      (next (change world.store).1).run { world with store := (change world.store).2 } := rfl

@[simp] theorem run_change_bind (update : Store → Store) (next : Unit → Action σ β)
    (world : World σ) :
    (change update >>= next).run world =
      (next ()).run { world with store := update world.store } := rfl

@[simp] theorem run_pure_bind (answer : α) (next : α → Action σ β) (world : World σ) :
    ((pure answer : Action σ α) >>= next).run world = (next answer).run world := rfl

@[simp] theorem run_throw_bind (fault : Fault) (next : α → Action σ β) (world : World σ) :
    ((throw fault : Action σ α) >>= next).run world = (.error fault, world) := rfl

end TraitComposition.Action
