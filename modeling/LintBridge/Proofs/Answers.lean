/-!
Answers that do not depend on what was learned before.

An action on a state `Answers` a value over a class of states if it gives that value from every
state of the class and leaves a state of the class; it is `Settled` if there is such a value. Then
it may be carried out before, after or between other such actions: none of them makes a difference
to the others.

An action `Leads` from one class of states to another if it leaves a state of the second class
whenever it finds one of the first. It `Yields` a relation if from every state of a class its answer
and the state that it leaves are related. The rules for all of these follow the way actions are put
together.

Some actions may break off. `Results` says what is known of an action that always has a result, and
of one that may have none: such an action only answers what it is known to come to, while it leads
wherever it comes to if it does.
-/

namespace LintBridge

/-! ## Results -/

/-- How an action comes to a result. -/
class Results (m : Type → Type) [Monad m] extends LawfulMonad m where
  /-- Any result meets a condition. -/
  Every : {α : Type} → m α → (α → Prop) → Prop
  /-- There is a result, and it meets a condition. -/
  Sure : {α : Type} → m α → (α → Prop) → Prop
  every_pure {α : Type} {p : α → Prop} (a : α) : p a → Every (pure a) p
  every_bind {α β : Type} {x : m α} {f : α → m β} {p : α → Prop} {q : β → Prop} :
    Every x p → (∀ a, p a → Every (f a) q) → Every (x >>= f) q
  every_mono {α : Type} {x : m α} {p q : α → Prop} : Every x p → (∀ a, p a → q a) → Every x q
  every_of_sure {α : Type} {x : m α} {p : α → Prop} : Sure x p → Every x p
  sure_pure {α : Type} {p : α → Prop} (a : α) : p a → Sure (pure a) p
  sure_bind {α β : Type} {x : m α} {f : α → m β} {p : α → Prop} {q : β → Prop} :
    Sure x p → (∀ a, p a → Sure (f a) q) → Sure (x >>= f) q

instance : Results Id where
  Every x p := p x
  Sure x p := p x
  every_pure _ h := h
  every_bind h hf := hf _ h
  every_mono h hp := hp _ h
  every_of_sure h := h
  sure_pure _ h := h
  sure_bind h hf := hf _ h

instance : Results Option where
  Every x p := x.elim True p
  Sure x p := x.elim False p
  every_pure _ h := h
  every_bind {_ _ x _ _ _} h hf :=
    match x, h with
    | none, _ => trivial
    | some a, h => hf a h
  every_mono {_ x _ _} h hp :=
    match x, h with
    | none, _ => trivial
    | some a, h => hp a h
  every_of_sure {_ x _} h :=
    match x, h with
    | some _, h => h
  sure_pure _ h := h
  sure_bind {_ _ x _ _ _} h hf :=
    match x, h with
    | some a, h => hf a h

variable {σ α β ε : Type} {K L M : σ → Prop}

theorem run_get_bind {m : Type → Type} [Monad m] [LawfulMonad m] (f : σ → StateT σ m β) (s : σ) :
    (get >>= f).run s = (f s).run s := by
  rw [StateT.run_bind, StateT.run_get, pure_bind]

/-- What follows an action is carried out on what the action leaves. -/
theorem run_bind_of_run {x : StateM σ α} {f : α → StateM σ β} {s t : σ} {a : α}
    (h : x.run s = (a, t)) : (x >>= f).run s = (f a).run t := by
  rw [StateT.run_bind, h]
  rfl

theorem run_bind_of_eq_some {x : StateT σ Option α} {f : α → StateT σ Option β} {s t : σ} {a : α}
    (h : x.run s = some (a, t)) : (x >>= f).run s = (f a).run t := by
  rw [StateT.run_bind, h]
  rfl

/-- An action comes to a result if what it starts with and what follows do. -/
theorem run_bind_eq_some {x : StateT σ Option α} {f : α → StateT σ Option β} {s u : σ} {b : β} :
    (x >>= f).run s = some (b, u) ↔
      ∃ a t, x.run s = some (a, t) ∧ (f a).run t = some (b, u) := by
  rw [StateT.run_bind, Option.bind_eq_bind, Option.bind_eq_some_iff]
  exact ⟨fun ⟨(a, t), h⟩ => ⟨a, t, h⟩, fun ⟨a, t, h⟩ => ⟨(a, t), h⟩⟩

/-- What an action that may fail answers, once it has been looked at by a test that may fail. -/
theorem run_bind_liftM (r : ExceptT ε (StateM σ) α) (f : α → Except ε β) (s : σ) :
    ((r >>= fun a => liftM (f a)).run.run s).1 = (r.run.run s).1.bind f := by
  rw [ExceptT.run_bind, StateT.run_bind]
  obtain ⟨answer, t⟩ := r.run.run s
  cases answer with
  | error e => rfl
  | ok a =>
    show ((liftM (f a) : ExceptT ε (StateM σ) β).run.run t).1 = f a
    cases f a <;> rfl

theorem Except.eq_ok_of_toOption {ε α : Type} {x : Except ε α} {a : α}
    (h : x.toOption = some a) : x = .ok a := by
  cases x with
  | error e => cases h
  | ok b => exact congrArg Except.ok (Option.some.inj h)

theorem Except.eq_ok_of_mapError {ε ε' α : Type} {f : ε → ε'} {x : Except ε α} {a : α}
    (h : x.mapError f = .ok a) : x = .ok a := by
  cases x with
  | error e => cases h
  | ok b => exact congrArg Except.ok (Except.ok.inj h)

theorem Except.exists_of_mapError {ε ε' α : Type} {f : ε → ε'} {x : Except ε α} {e : ε'}
    (h : x.mapError f = .error e) : ∃ cause, e = f cause := by
  cases x with
  | error cause => exact ⟨cause, (Except.error.inj h).symm⟩
  | ok b => cases h

/-! ## What actions answer -/

section

variable {m : Type → Type} [Monad m] [Results m]

/-- From every state of a class, an action gives one answer and leaves a state of the class. -/
def Answers (K : σ → Prop) (x : StateT σ m α) (a : α) : Prop :=
  ∀ s, K s → Results.Sure (x.run s) fun r => r.1 = a ∧ K r.2

namespace Answers

theorem pure (a : α) : Answers K (Pure.pure a : StateT σ m α) a := fun s hs => by
  rw [StateT.run_pure]
  exact Results.sure_pure _ ⟨rfl, hs⟩

theorem bind {x : StateT σ m α} {f : α → StateT σ m β} {a : α} {b : β} (hx : Answers K x a)
    (hf : Answers K (f a) b) : Answers K (x >>= f) b := fun s hs => by
  rw [StateT.run_bind]
  refine Results.sure_bind (hx s hs) ?_
  rintro ⟨_, t⟩ ⟨rfl, ht⟩
  exact hf t ht

theorem map {x : StateT σ m α} {a : α} (f : α → β) (hx : Answers K x a) :
    Answers K (f <$> x) (f a) := by
  rw [map_eq_pure_bind]
  exact hx.bind (pure _)

theorem get_bind {f : σ → StateT σ m β} {b : β} (hf : ∀ s, K s → Answers K (f s) b) :
    Answers K (get >>= f) b := fun s hs => by
  rw [run_get_bind]
  exact hf s hs s hs

/-- Actions carried out one after the other give their answers one after the other. -/
theorem mapM {f : α → StateT σ m β} {g : α → β} (l : List α)
    (hf : ∀ a ∈ l, Answers K (f a) (g a)) : Answers K (l.mapM f) (l.map g) := by
  induction l with
  | nil => exact pure []
  | cons a rest ih =>
    have hhead := hf a List.mem_cons_self
    have htail := ih fun b hb => hf b (List.mem_cons_of_mem a hb)
    rw [List.mapM_cons]
    exact hhead.bind (htail.bind (pure _))

end Answers

end

theorem Answers.exists_run {x : StateT σ Option α} {a : α} (hx : Answers K x a) {s : σ} (hs : K s) :
    ∃ t, x.run s = some (a, t) ∧ K t := by
  have hsure := hx s hs
  cases hrun : x.run s with
  | none =>
    rw [hrun] at hsure
    exact hsure.elim
  | some r =>
    rw [hrun] at hsure
    obtain ⟨rfl, ht⟩ := hsure
    exact ⟨r.2, rfl, ht⟩

/-- An action that has a result has an answer over a class of states. -/
def Settled (K : σ → Prop) (m : StateM σ α) : Prop := ∃ a, Answers K m a

namespace Settled

theorem pure (a : α) : Settled K (Pure.pure a) := ⟨a, Answers.pure a⟩

theorem bind {m : StateM σ α} {f : α → StateM σ β} (hm : Settled K m)
    (hf : ∀ a, Answers K m a → Settled K (f a)) : Settled K (m >>= f) := by
  obtain ⟨a, ha⟩ := hm
  obtain ⟨b, hb⟩ := hf a ha
  exact ⟨b, ha.bind hb⟩

theorem map {m : StateM σ α} (f : α → β) (hm : Settled K m) : Settled K (f <$> m) := by
  obtain ⟨a, ha⟩ := hm
  exact ⟨f a, ha.map f⟩

theorem get_bind {f : σ → StateM σ β} (start : σ) (hf : ∀ s, K s → f s = f start)
    (hstart : Settled K (f start)) : Settled K (get >>= f) := by
  obtain ⟨b, hb⟩ := hstart
  refine ⟨b, .get_bind fun s hs => ?_⟩
  rw [hf s hs]
  exact hb

theorem except_get_bind {f : σ → ExceptT ε (StateM σ) β} (start : σ)
    (hf : ∀ s, K s → f s = f start) (hstart : Settled K (f start).run) :
    Settled K (get >>= f).run := by
  show Settled K (get >>= fun s => (f s).run)
  exact get_bind start (fun s hs => congrArg ExceptT.run (hf s hs)) hstart

/-- An action that cannot fail, among actions that may. -/
theorem lift {m : StateM σ α} (hm : Settled K m) :
    Settled K (liftM m : ExceptT ε (StateM σ) α).run :=
  hm.map Except.ok

/-- What follows an action that may fail counts only where the action does not fail. -/
theorem except_bind {r : ExceptT ε (StateM σ) α} {f : α → ExceptT ε (StateM σ) β}
    (hr : Settled K r.run) (hf : ∀ a, Answers K r.run (.ok a) → Settled K (f a).run) :
    Settled K (r >>= f).run := by
  rw [ExceptT.run_bind]
  refine hr.bind fun answer hanswer => ?_
  cases answer with
  | error e => exact pure _
  | ok a => exact hf a hanswer

end Settled

/-! ## What actions lead to -/

section

variable {m : Type → Type} [Monad m] [Results m]

/-- From every state of one class, an action leaves a state of another. -/
def Leads (K : σ → Prop) (x : StateT σ m α) (L : σ → Prop) : Prop :=
  ∀ s, K s → Results.Every (x.run s) fun r => L r.2

/-- An action never leaves a class of states. -/
abbrev Keeps (K : σ → Prop) (x : StateT σ m α) : Prop := Leads K x K

namespace Leads

theorem pure (a : α) : Keeps K (Pure.pure a : StateT σ m α) := fun s hs => by
  rw [StateT.run_pure]
  exact Results.every_pure _ hs

theorem weaken {x : StateT σ m α} (hx : Leads K x L) (h : ∀ s, L s → M s) : Leads K x M :=
  fun s hs => Results.every_mono (hx s hs) fun _ ht => h _ ht

theorem bind {x : StateT σ m α} {f : α → StateT σ m β} (hx : Leads K x L)
    (hf : ∀ a, Leads L (f a) M) : Leads K (x >>= f) M := fun s hs => by
  rw [StateT.run_bind]
  exact Results.every_bind (hx s hs) fun r hr => hf r.1 r.2 hr

theorem get_bind {f : σ → StateT σ m β} (hf : ∀ s, K s → Leads K (f s) L) :
    Leads K (get >>= f) L := fun s hs => by
  rw [run_get_bind]
  exact hf s hs s hs

theorem modify {f : σ → σ} (h : ∀ s, K s → L (f s)) :
    Leads K (modify f : StateT σ m PUnit) L := fun s hs => by
  rw [StateT.run_modify]
  exact Results.every_pure _ (h s hs)

/-- An action that is carried out once for each of some things. -/
theorem forM {f : α → StateT σ m PUnit} (l : List α) (hf : ∀ a ∈ l, Keeps K (f a)) :
    Keeps K (l.forM f) := by
  induction l with
  | nil => exact pure _
  | cons a rest ih =>
    exact (hf a List.mem_cons_self).bind fun _ => ih fun b hb => hf b (List.mem_cons_of_mem a hb)

theorem mapM {f : α → StateT σ m β} (l : List α) (hf : ∀ a ∈ l, Keeps K (f a)) :
    Keeps K (l.mapM f) := by
  induction l with
  | nil => exact pure []
  | cons a rest ih =>
    rw [List.mapM_cons]
    exact (hf a List.mem_cons_self).bind fun _ =>
      (ih fun b hb => hf b (List.mem_cons_of_mem a hb)).bind fun _ => pure _

end Leads

end

namespace Leads

theorem of_run {x : StateT σ Option α} {s t : σ} {a : α} (hx : Leads K x L) (hs : K s)
    (h : x.run s = some (a, t)) : L t := by
  have hevery := hx s hs
  rw [h] at hevery
  exact hevery

/-- An action that breaks off leads nowhere. -/
theorem failure : Leads K (failure : StateT σ Option α) L := fun _ _ => trivial

/-- What may break off, but does nothing to the state. -/
theorem liftOption (x : Option α) : Keeps K (liftM x : StateT σ Option α) := by
  cases x with
  | none => exact fun _ _ => trivial
  | some a => exact fun _ hs => hs

theorem except_get_bind {f : σ → ExceptT ε (StateM σ) β}
    (hf : ∀ s, K s → Leads K (f s).run L) : Leads K (get >>= f).run L :=
  fun s hs => hf s hs s hs

theorem of_answers {m : Type → Type} [Monad m] [Results m] {x : StateT σ m α} {a : α}
    (hx : Answers K x a) : Keeps K x :=
  fun s hs => Results.every_mono (Results.every_of_sure (hx s hs)) fun _ h => h.2

/-- An action that cannot fail, among actions that may. -/
theorem lift {x : StateM σ α} (hx : Leads K x L) :
    Leads K (liftM x : ExceptT ε (StateM σ) α).run L := hx

theorem except_bind {r : ExceptT ε (StateM σ) α} {f : α → ExceptT ε (StateM σ) β}
    (hr : Keeps K r.run) (hf : ∀ a, Keeps K (f a).run) : Keeps K (r >>= f).run := by
  rw [ExceptT.run_bind]
  refine hr.bind fun answer => ?_
  cases answer with
  | error e => exact pure _
  | ok a => exact hf a

end Leads

/-! ## What actions give and leave -/

/-- From every state of a class, what an action answers and the state that it leaves are related. -/
def Yields (K : σ → Prop) (m : StateM σ α) (Q : α → σ → Prop) : Prop :=
  ∀ s, K s → Q (m.run s).1 (m.run s).2

namespace Yields

variable {P : α → σ → Prop} {Q : β → σ → Prop}

theorem pure {Q : α → σ → Prop} (a : α) (h : ∀ s, K s → Q a s) : Yields K (Pure.pure a) Q := h

theorem bind {m : StateM σ α} {f : α → StateM σ β} (hm : Yields K m P)
    (hf : ∀ a, Yields (P a) (f a) Q) : Yields K (m >>= f) Q :=
  fun s hs => hf (m.run s).1 _ (hm s hs)

theorem except_get_bind {f : σ → ExceptT ε (StateM σ) β} {start : σ}
    {Q : Except ε β → σ → Prop} (h : Yields (· = start) (f start).run Q) :
    Yields (· = start) (get >>= f).run Q := by
  rintro s rfl
  exact h s rfl

/-- An action that cannot fail, among actions that may. -/
theorem lift {m : StateM σ α} (hm : Yields K m P) :
    Yields K (liftM m : ExceptT ε (StateM σ) α).run fun answer s =>
      ∃ a, answer = .ok a ∧ P a s :=
  fun s hs => ⟨(m.run s).1, rfl, hm s hs⟩

/-- After an action that may fail, the next one is carried out if it did not. -/
theorem except_bind {r : ExceptT ε (StateM σ) α} {f : α → ExceptT ε (StateM σ) β}
    {P : Except ε α → σ → Prop} {Q : Except ε β → σ → Prop} (hr : Yields K r.run P)
    (hfail : ∀ e s, P (.error e) s → Q (.error e) s)
    (hf : ∀ a, Yields (P (.ok a)) (f a).run Q) : Yields K (r >>= f).run Q := by
  rw [ExceptT.run_bind]
  refine hr.bind fun answer => ?_
  cases answer with
  | error e => exact pure _ (hfail e)
  | ok a => exact hf a

end Yields
end LintBridge
