import Mathlib.Logic.Relation
import Mathlib.Data.List.Basic

/-!
# Guarded runs of a labelled transition system

A system is a step relation `step : σ → α → σ → Prop`. A *guarded run* (`Run step ok`) is a finite
run all of whose steps satisfy a guard `ok` on the state before and the label. There are the
induction rule of guarded runs (`Run.invariant`), the simulation of one system by another
(`Run.simulation`), and the executions of a partial step function under a decidable guard (`execs`,
`run_of_execs`), by which a concrete run is evaluated. What holds of every step of an execution is
`Along`; by `along_iff`, the guard under which an execution has a property is found step by step.
Calls that return something are `outputs`; one function does what another does when each of its
calls does (`outputs_simulation`).

A successful computation in `Except` is taken apart by `ok_of_bind` and, for loops, by
`foldlM_ok_induction` and `getElem?_of_mapM`. A loop that draws random numbers is `foldDraws`, with
the draws as a sequence.
-/

namespace Lts

open List

universe u

variable {σ α : Type*} {step : σ → α → σ → Prop} {ok : σ → α → Prop}

/-- One guarded step: some label allowed by the guard leads from `s` to `t`. -/
def GStep (step : σ → α → σ → Prop) (ok : σ → α → Prop) (s t : σ) : Prop :=
  ∃ a, ok s a ∧ step s a t

/-- A finite run all of whose steps satisfy the guard. -/
def Run (step : σ → α → σ → Prop) (ok : σ → α → Prop) : σ → σ → Prop :=
  Relation.ReflTransGen (GStep step ok)

/-- The guard that allows every step. -/
def anyStep (_ : σ) (_ : α) : Prop := True
deriving Decidable

theorem Run.refl (s : σ) : Run step ok s s := Relation.ReflTransGen.refl

theorem Run.snoc {s t u : σ} {a : α} (h : Run step ok s t) (hok : ok t a) (hst : step t a u) :
    Run step ok s u :=
  Relation.ReflTransGen.tail h ⟨a, hok, hst⟩

/-- The induction rule: what holds initially and is preserved by every guarded step holds at the
end of every guarded run. -/
theorem Run.invariant {I : σ → Prop}
    (hstep : ∀ {s t : σ} {a : α}, I s → ok s a → step s a t → I t) {s t : σ} (h0 : I s)
    (h : Run step ok s t) : I t := by
  induction h with
  | refl => exact h0
  | tail _ hst ih =>
    obtain ⟨a, hok, hst⟩ := hst
    exact hstep ih hok hst

/-- Runs of one system simulate those of another, step by step, where the first keeps an
invariant. -/
theorem Run.simulation {τ β : Type*} {step' : τ → β → τ → Prop} {okβ : τ → β → Prop} {J : σ → Prop}
    (f : σ → τ) (g : σ → α → β) (hJ : ∀ {s t : σ} {a : α}, J s → step s a t → J t)
    (hsim : ∀ {s t : σ} {a : α}, J s → step s a t → step' (f s) (g s a) (f t))
    (hok : ∀ {s : σ} {a : α}, ok s a → okβ (f s) (g s a)) {s t : σ} (h0 : J s)
    (h : Run step ok s t) : Run step' okβ (f s) (f t) := by
  have key : J t ∧ Run step' okβ (f s) (f t) := by
    induction h with
    | refl => exact ⟨h0, Run.refl _⟩
    | tail _ hst ih =>
      obtain ⟨a, ha, hst⟩ := hst
      exact ⟨hJ ih.1 hst, ih.2.snoc (hok ha) (hsim ih.1 hst)⟩
  exact key.2

/-- Executions of a partial step function under a guard, label by label. -/
def execs (ok : σ → α → Prop) [∀ s a, Decidable (ok s a)] (f : σ → α → Option σ) :
    σ → List α → Option σ
  | s, [] => some s
  | s, a :: as => if ok s a then (f s a).bind fun t => execs ok f t as else none

theorem run_of_execs [∀ s a, Decidable (ok s a)] {f : σ → α → Option σ}
    (hf : ∀ {s a t}, f s a = some t → step s a t) :
    ∀ {as : List α} {s t : σ}, execs ok f s as = some t → Run step ok s t
  | [], s, t, h => by
    cases h
    exact Run.refl s
  | a :: as, s, t, h => by
    rw [execs] at h
    split at h
    · next hok =>
      obtain ⟨u, hu, ht⟩ := Option.bind_eq_some_iff.1 h
      exact Relation.ReflTransGen.head ⟨a, hok, hf hu⟩ (run_of_execs hf ht)
    · cases h

/-- `P` holds of every step of the execution of `as` that is reached: of the state before it and its
label. -/
def Along (f : σ → α → Option σ) (P : σ → α → Prop) : σ → List α → Prop
  | _, [] => True
  | s, a :: as => P s a ∧ ∀ t, f s a = some t → Along f P t as

/-- A property of steps that keeps an invariant, and a guard that says the same under the invariant:
they hold along the same executions. -/
theorem along_iff {f : σ → α → Option σ} {I : σ → Prop} {P G : σ → α → Prop}
    (hstep : ∀ {s a t}, I s → P s a → f s a = some t → I t)
    (hiff : ∀ {s a}, I s → (P s a ↔ G s a)) :
    ∀ {as : List α} {s : σ}, I s → (Along f P s as ↔ Along f G s as)
  | [], _, _ => Iff.rfl
  | a :: as, s, hI => by
    constructor
    · rintro ⟨hP, htail⟩
      exact ⟨(hiff hI).1 hP, fun t ht => (along_iff hstep hiff (hstep hI hP ht)).1 (htail t ht)⟩
    · rintro ⟨hG, htail⟩
      have hP := (hiff hI).2 hG
      exact ⟨hP, fun t ht => (along_iff hstep hiff (hstep hI hP ht)).2 (htail t ht)⟩

/-! ## Functions with outputs -/

/-- The calls of a partial function one after the other, with what they return. -/
def outputs {β : Type*} (f : σ → α → Option (σ × β)) : σ → List α → Option (σ × List β)
  | s, [] => some (s, [])
  | s, a :: as => (f s a).bind fun r => (outputs f r.1 as).map fun t => (t.1, r.2 :: t.2)

/-- Where every call of `g` is a call of `f` with the same result on related states, so are
sequences of calls. -/
theorem outputs_simulation {τ β : Type*} {f : σ → α → Option (σ × β)} {g : τ → α → Option (τ × β)}
    {R : σ → τ → Prop}
    (hsim : ∀ {s t a t' b}, R s t → g t a = some (t', b) → ∃ s', f s a = some (s', b) ∧ R s' t')
    {as : List α} {s : σ} {t t' : τ} {bs : List β} (hR : R s t)
    (h : outputs g t as = some (t', bs)) : ∃ s', outputs f s as = some (s', bs) ∧ R s' t' := by
  induction as generalizing s t bs with
  | nil =>
    cases h
    exact ⟨s, rfl, hR⟩
  | cons a as ih =>
    obtain ⟨⟨t₁, b⟩, hg, h⟩ := Option.bind_eq_some_iff.1 h
    obtain ⟨⟨t₂, bs'⟩, hg', h⟩ := Option.map_eq_some_iff.1 h
    cases h
    obtain ⟨s₁, hf, hR₁⟩ := hsim hR hg
    obtain ⟨s₂, hf', hR₂⟩ := ih hR₁ hg'
    exact ⟨s₂, by simp [outputs, hf, hf'], hR₂⟩

/-! ## Loops over draws -/

/-- A loop over a list whose body takes one draw: the `n`-th iteration has the `n`-th draw. -/
def foldDraws {δ β γ : Type*} (f : δ → β → γ → β) : (Nat → δ) → β → List γ → β
  | _, b, [] => b
  | ds, b, c :: l => foldDraws f (fun n => ds (n + 1)) (f (ds 0) b c) l

theorem foldDraws_induction {δ β γ : Type*} {f : δ → β → γ → β} {P : β → Prop} :
    ∀ {l : List γ} (_ : ∀ {d b c}, c ∈ l → P b → P (f d b c)) (ds : Nat → δ) {b : β}, P b →
      P (foldDraws f ds b l)
  | [], _, _, _, h0 => h0
  | _ :: l, hstep, _, _, h0 =>
    foldDraws_induction (l := l) (fun hc => hstep (mem_cons_of_mem _ hc)) _ (hstep mem_cons_self h0)

/-! ## Successful computations -/

theorem ok_of_bind {ε : Type*} {β γ : Type u} {x : Except ε β} {f : β → Except ε γ} {c : γ}
    (h : (x >>= f) = .ok c) : ∃ b, x = .ok b ∧ f b = .ok c := by
  cases x with
  | error e => cases h
  | ok b => exact ⟨b, rfl, h⟩

theorem foldlM_ok_induction {ε β γ : Type*} {f : β → γ → Except ε β} {P : List γ → β → Prop}
    (hstep : ∀ {l b c b'}, P l b → f b c = .ok b' → P (l ++ [c]) b') :
    ∀ (l' : List γ) {l : List γ} {b b' : β}, P l b → l'.foldlM f b = .ok b' → P (l ++ l') b'
  | [], l, b, b', h0, h => by
    cases h
    simpa using h0
  | c :: l', l, b, b', h0, h => by
    rw [foldlM_cons] at h
    obtain ⟨b₁, h1, h2⟩ := ok_of_bind h
    have := foldlM_ok_induction hstep l' (hstep h0 h1) h2
    rwa [append_assoc, singleton_append] at this

theorem getElem?_of_mapM {ε β γ : Type u} {f : β → Except ε γ} :
    ∀ {l : List β} {l' : List γ}, l.mapM f = .ok l' →
      ∀ {i : Nat} {c : γ}, l'[i]? = some c → ∃ b, l[i]? = some b ∧ f b = .ok c
  | [], l', h, i, c, hc => by
    cases h
    cases hc
  | b :: l, l', h, i, c, hc => by
    rw [mapM_cons] at h
    obtain ⟨c₀, h0, h⟩ := ok_of_bind h
    obtain ⟨l₀, hl, h⟩ := ok_of_bind h
    cases h
    cases i with
    | zero =>
      cases hc
      exact ⟨b, rfl, h0⟩
    | succ i => exact getElem?_of_mapM hl hc

end Lts
