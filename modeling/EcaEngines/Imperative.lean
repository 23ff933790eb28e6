import Mathlib.Logic.Basic

/-!
# Imperative programs that may throw

Programs read and write a state of type `σ` and return a value or throw an
exception of type `χ`. A throw keeps the state written so far. Nothing here
depends on which program is verified.
-/
namespace EcaEngines.Imperative

variable {χ σ α β : Type}

abbrev Imp (χ σ : Type) := ExceptT χ (StateM σ)

/-- Run a program: its result, and the state it leaves in either case. -/
def exec (p : Imp χ σ α) (s : σ) : Except χ α × σ := p.run.run s

/-- An `if` without an `else`, whose condition is itself a program. -/
def ifM (c : Imp χ σ Bool) (body : Imp χ σ Unit) : Imp χ σ Unit :=
  c >>= fun b => if b then body else pure ()

/-- A condition read off the state. -/
def test (b : σ → Bool) : Imp χ σ Bool := b <$> get

/-- A program as it stands. -/
abbrev plain (p : Imp χ σ α) : Imp χ σ α := p

/-- A program on a part of the state. -/
def zoom {τ : Type} (view : σ → τ) (put : τ → σ → σ) (p : Imp χ τ α) : Imp χ σ α := do
  let s ← get
  let r := exec p (view s)
  set (put r.2 s)
  match r.1 with
  | .ok a => pure a
  | .error e => throw e

@[simp] theorem exec_pure (a : α) (s : σ) : exec (pure a : Imp χ σ α) s = (.ok a, s) := rfl

@[simp] theorem exec_throw (e : χ) (s : σ) :
    exec (throw e : Imp χ σ α) s = (.error e, s) := rfl

@[simp] theorem exec_get (s : σ) : exec (get : Imp χ σ σ) s = (.ok s, s) := rfl

@[simp] theorem exec_set (t s : σ) : exec (set t : Imp χ σ PUnit) s = (.ok ⟨⟩, t) := rfl

@[simp] theorem exec_modify (f : σ → σ) (s : σ) :
    exec (modify f : Imp χ σ PUnit) s = (.ok ⟨⟩, f s) := rfl

@[simp] theorem exec_test (b : σ → Bool) (s : σ) :
    exec (test b : Imp χ σ Bool) s = (.ok (b s), s) := rfl

/-- The sequencing equation: a throw of the first program ends the whole. -/
theorem exec_bind (p : Imp χ σ α) (k : α → Imp χ σ β) (s : σ) :
    exec (p >>= k) s = match exec p s with
      | (.ok a, t) => exec (k a) t
      | (.error e, t) => (.error e, t) := by
  change (ExceptT.bindCont k (p.run.run s).1).run (p.run.run s).2 = _
  unfold exec
  rcases p.run.run s with ⟨_ | _, _⟩ <;> rfl

theorem exec_bind_ok {p : Imp χ σ α} {k : α → Imp χ σ β} {s t : σ} {a : α}
    (h : exec p s = (.ok a, t)) : exec (p >>= k) s = exec (k a) t := by
  rw [exec_bind, h]

theorem exec_bind_error {p : Imp χ σ α} {k : α → Imp χ σ β} {s t : σ} {e : χ}
    (h : exec p s = (.error e, t)) : exec (p >>= k) s = (.error e, t) := by
  rw [exec_bind, h]

/-- A program that returns has passed through its parts. -/
theorem of_exec_bind {p : Imp χ σ α} {k : α → Imp χ σ β} {s u : σ} {b : β}
    (h : exec (p >>= k) s = (.ok b, u)) :
    ∃ a t, exec p s = (.ok a, t) ∧ exec (k a) t = (.ok b, u) := by
  rw [exec_bind] at h
  rcases hp : exec p s with ⟨e | a, t⟩ <;> rw [hp] at h
  · cases h
  · exact ⟨a, t, rfl, h⟩

@[simp] theorem exec_zoom {τ : Type} (view : σ → τ) (put : τ → σ → σ) (p : Imp χ τ α) (s : σ) :
    exec (zoom view put p) s = ((exec p (view s)).1, put (exec p (view s)).2 s) := by
  unfold zoom
  rw [exec_bind_ok (exec_get s)]
  dsimp only
  rw [exec_bind_ok (exec_set _ s)]
  cases (exec p (view s)).1 <;> rfl

theorem exec_ifM_of_true {c : Imp χ σ Bool} {body : Imp χ σ Unit} {s t : σ}
    (h : exec c s = (.ok true, t)) : exec (ifM c body) s = exec body t :=
  exec_bind_ok h

theorem exec_ifM_of_false {c : Imp χ σ Bool} {body : Imp χ σ Unit} {s t : σ}
    (h : exec c s = (.ok false, t)) : exec (ifM c body) s = (.ok (), t) :=
  exec_bind_ok h

theorem exec_ifM_test (b : σ → Bool) (body : Imp χ σ Unit) (s : σ) :
    exec (ifM (test b) body) s = if b s then exec body s else (.ok (), s) := by
  cases h : b s with
  | true => exact exec_ifM_of_true (by rw [exec_test, h])
  | false => exact exec_ifM_of_false (by rw [exec_test, h])

/-- The handler starts in the state in which the program has thrown. -/
theorem exec_tryCatch (p : Imp χ σ α) (h : χ → Imp χ σ α) (s : σ) :
    exec (tryCatch p h) s = match exec p s with
      | (.ok a, t) => (.ok a, t)
      | (.error e, t) => exec (h e) t := by
  have hrun : exec (tryCatch p h) s = (match (p.run.run s).1 with
      | .ok a => pure (.ok a)
      | .error e => (h e).run : StateM σ (Except χ α)).run (p.run.run s).2 := rfl
  rw [hrun]
  unfold exec
  rcases p.run.run s with ⟨_ | _, _⟩ <;> rfl

/-- The program returns, in a state with `Q`. -/
def Leads (p : Imp χ σ Unit) (s : σ) (Q : σ → Prop) : Prop :=
  ∃ t, exec p s = (.ok (), t) ∧ Q t

/-- The loop rule: `I` is about what is left of the list. -/
theorem leads_forM {f : α → Imp χ σ Unit} {I : List α → σ → Prop}
    (h : ∀ a as s, I (a :: as) s → Leads (f a) s (I as)) (as : List α) (s : σ) (hs : I as s) :
    Leads (as.forM f) s (I []) := by
  induction as generalizing s with
  | nil => exact ⟨s, rfl, hs⟩
  | cons a as ih =>
    obtain ⟨t, ht, hI⟩ := h a as s hs
    obtain ⟨u, hu, hI'⟩ := ih t hI
    exact ⟨u, (exec_bind_ok ht).trans hu, hI'⟩

theorem Leads.seq {p q : Imp χ σ Unit} {s t : σ} {Q : σ → Prop} (hp : exec p s = (.ok (), t))
    (hq : Leads q t Q) : Leads (p >>= fun _ => q) s Q := by
  obtain ⟨u, hu, hQ⟩ := hq
  exact ⟨u, (exec_bind_ok hp).trans hu, hQ⟩

/-- From a state with `P` the program returns, with `Q`. -/
def Meets (P : σ → Prop) (p : Imp χ σ α) (Q : α → σ → Prop) : Prop :=
  ∀ s, P s → ∃ a t, exec p s = (.ok a, t) ∧ Q a t

theorem Meets.bind {P : σ → Prop} {Q : α → σ → Prop} {R : β → σ → Prop} {p : Imp χ σ α}
    {k : α → Imp χ σ β} (hp : Meets P p Q) (hk : ∀ a, Meets (Q a) (k a) R) :
    Meets P (p >>= k) R := by
  intro s hs
  obtain ⟨a, t, ht, hQ⟩ := hp s hs
  obtain ⟨b, u, hu, hR⟩ := hk a t hQ
  exact ⟨b, u, (exec_bind_ok ht).trans hu, hR⟩

/-- `P` survives the program, also when it throws. -/
def Keeps (P : σ → Prop) (p : Imp χ σ α) : Prop := ∀ s, P s → P (exec p s).2

theorem keeps_pure (P : σ → Prop) (a : α) : Keeps P (pure a : Imp χ σ α) := fun _ hs => hs

theorem keeps_throw (P : σ → Prop) (e : χ) : Keeps P (throw e : Imp χ σ α) := fun _ hs => hs

theorem keeps_modify {P : σ → Prop} {f : σ → σ} (h : ∀ s, P s → P (f s)) :
    Keeps P (modify f : Imp χ σ PUnit) := h

theorem Meets.keeps {P : σ → Prop} {p : Imp χ σ α} (h : Meets P p fun _ => P) : Keeps P p := by
  intro s hs
  obtain ⟨a, t, ht, hP⟩ := h s hs
  rwa [ht]

theorem Keeps.bind {P : σ → Prop} {p : Imp χ σ α} {k : α → Imp χ σ β}
    (hp : Keeps P p) (hk : ∀ a, Keeps P (k a)) : Keeps P (p >>= k) := by
  intro s hs
  have h := hp s hs
  rw [exec_bind]
  rcases hr : exec p s with ⟨_ | a, t⟩ <;> rw [hr] at h
  · exact h
  · exact hk a t h

theorem Keeps.ifM {P : σ → Prop} {c : Imp χ σ Bool} {body : Imp χ σ Unit}
    (hc : Keeps P c) (hb : Keeps P body) : Keeps P (ifM c body) :=
  hc.bind fun b => by cases b with
    | true => exact hb
    | false => exact keeps_pure P ()

theorem Keeps.tryCatch {P : σ → Prop} {p : Imp χ σ α} {h : χ → Imp χ σ α} (hp : Keeps P p)
    (hh : ∀ e, Keeps P (h e)) : Keeps P (tryCatch p h) := by
  intro s hs
  have hP := hp s hs
  rw [exec_tryCatch]
  rcases hr : exec p s with ⟨e | a, t⟩ <;> rw [hr] at hP
  · exact hh e t hP
  · exact hP

theorem Keeps.forM {P : σ → Prop} {f : α → Imp χ σ Unit} (hf : ∀ a, Keeps P (f a))
    (as : List α) : Keeps P (as.forM f) := by
  induction as with
  | nil => exact keeps_pure P ()
  | cons a as ih => exact (hf a).bind fun _ => ih

/-- Wherever the program ends, it ends in a state related to the first, unless it throws
something with `E`. -/
def Moves (R : σ → σ → Prop) (E : χ → Prop) (p : Imp χ σ α) : Prop :=
  ∀ s r t, exec p s = (r, t) → (∀ e, r = .error e → ¬ E e) → R s t

section
variable {R : σ → σ → Prop} {E : χ → Prop}

theorem moves_of_exec {p : Imp χ σ α} {r : σ → Except χ α} {f : σ → σ}
    (h : ∀ s, exec p s = (r s, f s)) (hf : ∀ s, R s (f s)) : Moves R E p := by
  intro s r t he _
  rw [h] at he
  obtain rfl := congrArg Prod.snd he
  exact hf s

theorem Moves.bind {p : Imp χ σ α} {k : α → Imp χ σ β}
    (htrans : ∀ {s t u}, R s t → R t u → R s u) (hp : Moves R E p) (hk : ∀ a, Moves R E (k a)) :
    Moves R E (p >>= k) := by
  intro s r u h he
  rw [exec_bind] at h
  rcases hr : exec p s with ⟨e | a, t⟩ <;> rw [hr] at h
  · obtain ⟨rfl, rfl⟩ := Prod.mk.injEq .. ▸ h
    exact hp s _ _ hr fun e' heq => he e' (congrArg Except.error (Except.error.inj heq))
  · exact htrans (hp s _ _ hr nofun) (hk a t r u h he)

theorem Moves.ifM {c : Imp χ σ Bool} {body : Imp χ σ Unit} (hrefl : ∀ s, R s s)
    (htrans : ∀ {s t u}, R s t → R t u → R s u) (hc : Moves R E c) (hb : Moves R E body) :
    Moves R E (ifM c body) :=
  hc.bind htrans fun b => by cases b with
    | true => exact hb
    | false => exact moves_of_exec (fun _ => rfl) hrefl

theorem Moves.mono {R' : σ → σ → Prop} {p : Imp χ σ α} (h : Moves R E p)
    (hR : ∀ s t, R s t → R' s t) : Moves R' E p := fun s r t he hn => hR s t (h s r t he hn)

end

/-- All that the program throws has `E`. -/
def Raises (E : χ → Prop) (p : Imp χ σ α) : Prop := ∀ s e, (exec p s).1 = .error e → E e

theorem raises_modify (E : χ → Prop) (f : σ → σ) : Raises E (modify f : Imp χ σ PUnit) := nofun

theorem raises_test (E : χ → Prop) (b : σ → Bool) : Raises E (test b : Imp χ σ Bool) := nofun

theorem Raises.bind {E : χ → Prop} {p : Imp χ σ α} {k : α → Imp χ σ β}
    (hp : Raises E p) (hk : ∀ a, Raises E (k a)) : Raises E (p >>= k) := by
  intro s e he
  have h := hp s
  rw [exec_bind] at he
  rcases hr : exec p s with ⟨e' | a, t⟩ <;> rw [hr] at he h
  · have heq : e' = e := Except.error.inj he
    exact h e (congrArg Except.error heq)
  · exact hk a t e he

/-- The program gives the same from related states, and leaves related states. -/
def Agrees (R : σ → σ → Prop) (p : Imp χ σ α) : Prop :=
  ∀ s t, R s t → (exec p s).1 = (exec p t).1 ∧ R (exec p s).2 (exec p t).2

theorem agrees_modify {R : σ → σ → Prop} {f : σ → σ} (h : ∀ s t, R s t → R (f s) (f t)) :
    Agrees R (modify f : Imp χ σ PUnit) := fun s t hst => ⟨rfl, h s t hst⟩

theorem agrees_test {R : σ → σ → Prop} {b : σ → Bool} (h : ∀ s t, R s t → b s = b t) :
    Agrees R (test b : Imp χ σ Bool) := fun s t hst => ⟨congrArg Except.ok (h s t hst), hst⟩

theorem Agrees.bind {R : σ → σ → Prop} {p : Imp χ σ α} {k : α → Imp χ σ β}
    (hp : Agrees R p) (hk : ∀ a, Agrees R (k a)) : Agrees R (p >>= k) := by
  intro s t hst
  obtain ⟨he, hR⟩ := hp s t hst
  rw [exec_bind, exec_bind]
  rcases hs : exec p s with ⟨_ | a, s'⟩ <;> rcases ht : exec p t with ⟨_ | b, t'⟩ <;>
    rw [hs, ht] at he hR
  · exact ⟨congrArg Except.error (Except.error.inj he), hR⟩
  · cases he
  · cases he
  · obtain rfl := Except.ok.inj he
    exact hk a s' t' hR

/-- A program put together from actions in `A`, under conditions in `C`. -/
inductive Composed (A : Imp χ σ Unit → Prop) (C : Imp χ σ Bool → Prop) : Imp χ σ Unit → Prop
  | act {p} (hp : A p) : Composed A C p
  | seq {p q} (hp : Composed A C p) (hq : Composed A C q) : Composed A C (p >>= fun _ => q)
  | ifM {c p} (hc : C c) (hp : Composed A C p) : Composed A C (ifM c p)

section
variable {A : Imp χ σ Unit → Prop} {C : Imp χ σ Bool → Prop} {p : Imp χ σ Unit}

theorem Composed.keeps {P : σ → Prop} (hA : ∀ p, A p → Keeps P p) (hC : ∀ c, C c → Keeps P c)
    (h : Composed A C p) : Keeps P p := by
  induction h with
  | act hp => exact hA _ hp
  | seq _ _ ihp ihq => exact ihp.bind fun _ => ihq
  | ifM hc _ ih =>
    refine (hC _ hc).bind fun b => ?_
    cases b with
    | true => exact ih
    | false => exact keeps_pure P ()

theorem Composed.raises {E : χ → Prop} (hA : ∀ p, A p → Raises E p) (hC : ∀ c, C c → Raises E c)
    (h : Composed A C p) : Raises E p := by
  induction h with
  | act hp => exact hA _ hp
  | seq _ _ ihp ihq => exact ihp.bind fun _ => ihq
  | ifM hc _ ih =>
    refine (hC _ hc).bind fun b => ?_
    cases b with
    | true => exact ih
    | false => exact nofun

theorem Composed.agrees {R : σ → σ → Prop} (hA : ∀ p, A p → Agrees R p)
    (hC : ∀ c, C c → Agrees R c) (h : Composed A C p) : Agrees R p := by
  induction h with
  | act hp => exact hA _ hp
  | seq _ _ ihp ihq => exact ihp.bind fun _ => ihq
  | ifM hc _ ih =>
    refine (hC _ hc).bind fun b => ?_
    cases b with
    | true => exact ih
    | false => exact fun _ _ h => ⟨rfl, h⟩

end

/-- Two programs, started in related states, both return, in related states. -/
def Both {τ : Type} (P : σ → τ → Prop) (p : Imp χ σ Unit) (q : Imp χ τ Unit)
    (Q : σ → τ → Prop) : Prop :=
  ∀ s t, P s t → ∃ s' t', exec p s = (.ok (), s') ∧ exec q t = (.ok (), t') ∧ Q s' t'

theorem Both.seq {τ : Type} {P Q R : σ → τ → Prop} {p p' : Imp χ σ Unit} {q q' : Imp χ τ Unit}
    (h : Both P p q Q) (h' : Both Q p' q' R) :
    Both P (p >>= fun _ => p') (q >>= fun _ => q') R := by
  intro s t hst
  obtain ⟨s₁, t₁, hs₁, ht₁, h₁⟩ := h s t hst
  obtain ⟨s₂, t₂, hs₂, ht₂, h₂⟩ := h' s₁ t₁ h₁
  exact ⟨s₂, t₂, (exec_bind_ok hs₁).trans hs₂, (exec_bind_ok ht₁).trans ht₂, h₂⟩

/-- The first program does what the second does to the part `π` of its state. -/
def Projects {τ : Type} (π : σ → τ) (p : Imp χ σ α) (q : Imp χ τ α) : Prop :=
  ∀ s, exec q (π s) = ((exec p s).1, π (exec p s).2)

section
variable {τ : Type} {π : σ → τ}

theorem projects_pure (a : α) : Projects π (pure a : Imp χ σ α) (pure a) := fun _ => rfl

theorem projects_throw (e : χ) : Projects π (throw e : Imp χ σ α) (throw e) := fun _ => rfl

theorem projects_zoom {put : τ → σ → σ} (hput : ∀ t s, π (put t s) = t) (p : Imp χ τ α) :
    Projects π (zoom π put p) p := fun s => by rw [exec_zoom, hput]

theorem Projects.bind {p : Imp χ σ α} {q : Imp χ τ α} {k : α → Imp χ σ β} {j : α → Imp χ τ β}
    (h : Projects π p q) (hk : ∀ a, Projects π (k a) (j a)) :
    Projects π (p >>= k) (q >>= j) := by
  intro s
  have hq := h s
  rcases hp : exec p s with ⟨e | a, t⟩ <;> rw [hp] at hq
  · rw [exec_bind_error hp, exec_bind_error hq]
  · rw [exec_bind_ok hp, exec_bind_ok hq]
    exact hk a t

theorem Projects.ifM {c : Imp χ σ Bool} {d : Imp χ τ Bool} {p : Imp χ σ Unit} {q : Imp χ τ Unit}
    (hc : Projects π c d) (h : Projects π p q) : Projects π (ifM c p) (ifM d q) :=
  hc.bind fun b => by cases b with
    | true => exact h
    | false => exact projects_pure ()

theorem Projects.tryCatch {p : Imp χ σ α} {q : Imp χ τ α} {g : χ → Imp χ σ α} {j : χ → Imp χ τ α}
    (h : Projects π p q) (hg : ∀ e, Projects π (g e) (j e)) :
    Projects π (tryCatch p g) (tryCatch q j) := by
  intro s
  rw [exec_tryCatch, exec_tryCatch, h s]
  rcases exec p s with ⟨e | a, t⟩
  · exact hg e t
  · rfl

theorem Projects.forM {f : α → Imp χ σ Unit} {g : α → Imp χ τ Unit}
    (h : ∀ a, Projects π (f a) (g a)) (as : List α) : Projects π (as.forM f) (as.forM g) := by
  induction as with
  | nil => exact projects_pure ()
  | cons a as ih => exact (h a).bind fun _ => ih

theorem projects_modify {f : σ → σ} {g : τ → τ} (h : ∀ s, π (f s) = g (π s)) :
    Projects (χ := χ) π (modify f : Imp χ σ PUnit) (modify g) := fun s => by
  rw [exec_modify, exec_modify, h]

/-- The program leaves the part that is seen as it is. -/
def Unseen (π : σ → τ) (p : Imp χ σ Unit) : Prop := Projects π p (pure ())

theorem unseen_modify {f : σ → σ} (h : ∀ s, π (f s) = π s) :
    Unseen (χ := χ) π (modify f : Imp χ σ PUnit) := fun s => congrArg (Prod.mk _) (h s).symm

theorem Unseen.before {p k : Imp χ σ Unit} {q : Imp χ τ Unit} (hp : Unseen π p)
    (hk : Projects π k q) : Projects π (p >>= fun _ => k) q := hp.bind fun _ => hk

theorem Unseen.after {p k : Imp χ σ Unit} {q : Imp χ τ Unit} (hk : Unseen π k)
    (hp : Projects π p q) : Projects π (p >>= fun _ => k) q := by
  intro s
  rw [← (hp.bind fun _ => hk) s, exec_bind]
  rcases exec q (π s) with ⟨e | a, t⟩ <;> rfl

end

end EcaEngines.Imperative
