import Mathlib.Tactic.Ring

/-!
# Programs of atomic actions

A program takes one atomic action after the other on a state that others change between its actions.
An action reads the state and an outcome that is not up to the program, and the program goes on as
they have it; it ends with a value or an error. Each action carries a tag that says what it is.

What holds of a program is said against a contract: what others may do to the state while the program
is at an action, with which outcomes the action may be taken, and what each action must do.
-/

namespace Program

variable {τ σ ι ε α β : Type}

inductive Prog (τ σ ι ε α : Type) : Type
  | ret (value : α)
  | raise (error : ε)
  | act (tag : τ) (effect : σ → ι → σ) (next : σ → ι → Prog τ σ ι ε α)

namespace Prog

protected def bind : Prog τ σ ι ε α → (α → Prog τ σ ι ε β) → Prog τ σ ι ε β
  | ret value, k => k value
  | raise error, _ => raise error
  | act tag effect next, k => act tag effect fun s i => (next s i).bind k

protected def tryCatch : Prog τ σ ι ε α → (ε → Prog τ σ ι ε α) → Prog τ σ ι ε α
  | ret value, _ => ret value
  | raise error, h => h error
  | act tag effect next, h => act tag effect fun s i => (next s i).tryCatch h

instance : Monad (Prog τ σ ι ε) where
  pure := ret
  bind := Prog.bind

instance : MonadExcept ε (Prog τ σ ι ε) where
  throw := raise
  tryCatch := Prog.tryCatch

def tag? : Prog τ σ ι ε α → Option τ
  | act tag _ _ => some tag
  | _ => none

def Every (rel : σ → σ → Prop) : Prog τ σ ι ε α → Prop
  | ret _ => True
  | raise _ => True
  | act _ effect next => ∀ s i, rel s (effect s i) ∧ (next s i).Every rel

/-- From a state the program ends with a result in another, with no others and with actions of a kind. -/
def Alone (kind : τ → ι → Prop) : Prog τ σ ι ε α → σ → Except ε α → σ → Prop
  | ret value, s, result, s' => result = .ok value ∧ s' = s
  | raise error, s, result, s' => result = .error error ∧ s' = s
  | act tag effect next, s, result, s' =>
    ∃ i, kind tag i ∧ (next s i).Alone kind (effect s i) result s'

end Prog

/-- What holds while a program is under way, what others may do while it is at an action, the outcomes
with which the action may be taken, and what it must do. -/
structure Contract (τ σ ι : Type) where
  during : σ → Prop
  rely : τ → σ → σ → Prop
  allowed : τ → σ → ι → Prop
  guarantee : σ → σ → Prop
  keeps : ∀ {tag s s'}, rely tag s s' → during s → during s'
  trans : ∀ {tag s s' s''}, rely tag s s' → rely tag s' s'' → rely tag s s''

variable (contract : Contract τ σ ι)

/-- The program keeps the contract and ends within `post`, or with an error within `fails`. -/
def Meets (post : α → σ → Prop) (fails : ε → σ → Prop) : Prog τ σ ι ε α → σ → Prop
  | .ret value, s => post value s
  | .raise error, s => fails error s
  | .act tag effect next, s => contract.during s ∧
      ∀ s', contract.rely tag s s' → ∀ i, contract.allowed tag s' i →
        contract.guarantee s' (effect s' i) ∧ Meets post fails (next s' i) (effect s' i)

variable {contract} {post post' : α → σ → Prop} {fails fails' : ε → σ → Prop} {p : Prog τ σ ι ε α}

theorem meets_act {tag : τ} {effect : σ → ι → σ} {next : σ → ι → Prog τ σ ι ε α}
    {next' : σ → ι → Prog τ σ ι ε β} {post' : β → σ → Prop} {s : σ}
    (h : ∀ s i, Meets contract post fails (next s i) (effect s i) ↔
      Meets contract post' fails' (next' s i) (effect s i)) :
    Meets contract post fails (.act tag effect next) s ↔
      Meets contract post' fails' (.act tag effect next') s := by
  constructor
  · rintro ⟨hduring, hnext⟩
    refine ⟨hduring, fun s' hrely i hallowed => ?_⟩
    obtain ⟨hguarantee, hthis⟩ := hnext s' hrely i hallowed
    exact ⟨hguarantee, (h s' i).mp hthis⟩
  · rintro ⟨hduring, hnext⟩
    refine ⟨hduring, fun s' hrely i hallowed => ?_⟩
    obtain ⟨hguarantee, hthis⟩ := hnext s' hrely i hallowed
    exact ⟨hguarantee, (h s' i).mpr hthis⟩

theorem meets_bind {k : α → Prog τ σ ι ε β} {post : β → σ → Prop} {s : σ} :
    Meets contract post fails (p >>= k) s ↔
      Meets contract (fun value => Meets contract post fails (k value)) fails p s := by
  induction p generalizing s with
  | ret value | raise error => exact Iff.rfl
  | act tag effect next ih => exact meets_act fun s i => ih s i

theorem meets_tryCatch {h : ε → Prog τ σ ι ε α} {s : σ} :
    Meets contract post fails (tryCatch p h) s ↔
      Meets contract post (fun error => Meets contract post fails (h error)) p s := by
  induction p generalizing s with
  | ret value | raise error => exact Iff.rfl
  | act tag effect next ih => exact meets_act fun s i => ih s i

theorem Meets.mono {s : σ} (h : Meets contract post fails p s)
    (hpost : ∀ value s, post value s → post' value s)
    (hfails : ∀ error s, fails error s → fails' error s) : Meets contract post' fails' p s := by
  induction p generalizing s with
  | ret value => exact hpost value s h
  | raise error => exact hfails error s h
  | act tag effect next ih =>
    refine ⟨h.1, fun s' hrely i hallowed => ?_⟩
    obtain ⟨hguarantee, hnext⟩ := h.2 s' hrely i hallowed
    exact ⟨hguarantee, ih s' i hnext⟩

theorem Meets.stable {tag : τ} {effect : σ → ι → σ} {next : σ → ι → Prog τ σ ι ε α} {s s' : σ}
    (h : Meets contract post fails (.act tag effect next) s) (hrely : contract.rely tag s s') :
    Meets contract post fails (.act tag effect next) s' :=
  ⟨contract.keeps hrely h.1, fun s'' hrely' => h.2 s'' (contract.trans hrely hrely')⟩

theorem Prog.Every.meets {rel : σ → σ → Prop} {inv : σ → Prop}
    (h : p.Every rel) (hduring : ∀ s, inv s → contract.during s)
    (hrely : ∀ tag s s', contract.rely tag s s' → inv s → inv s')
    (hrel : ∀ s s', inv s → rel s s' → contract.guarantee s s' ∧ inv s') {s : σ} (hs : inv s) :
    Meets contract (fun _ => inv) (fun _ => inv) p s := by
  induction p generalizing s with
  | ret value => exact hs
  | raise error => exact hs
  | act tag effect next ih =>
    refine ⟨hduring s hs, fun s' hothers i _ => ?_⟩
    obtain ⟨haction, hnext⟩ := h s' i
    obtain ⟨hguarantee, hinv⟩ := hrel s' _ (hrely tag s s' hothers hs) haction
    exact ⟨hguarantee, ih s' i hnext hinv⟩

section Alone

variable {kind : τ → ι → Prop} {s s' : σ}

theorem alone_bind {k : α → Prog τ σ ι ε β} {result : Except ε β} :
    (p >>= k).Alone kind s result s' ↔
      (∃ value s₁, p.Alone kind s (.ok value) s₁ ∧ (k value).Alone kind s₁ result s') ∨
        ∃ error, p.Alone kind s (.error error) s' ∧ result = .error error := by
  induction p generalizing s with
  | ret value =>
    constructor
    · intro h
      exact Or.inl ⟨value, s, ⟨rfl, rfl⟩, h⟩
    · rintro (⟨value, s₁, ⟨heq, rfl⟩, h⟩ | ⟨error, ⟨heq, -⟩, -⟩)
      · cases heq
        exact h
      · cases heq
  | raise error =>
    constructor
    · rintro ⟨rfl, rfl⟩
      exact Or.inr ⟨error, ⟨rfl, rfl⟩, rfl⟩
    · rintro (⟨value, s₁, ⟨heq, -⟩, -⟩ | ⟨error, ⟨heq, rfl⟩, rfl⟩)
      · cases heq
      · cases heq
        exact ⟨rfl, rfl⟩
  | act tag effect next ih =>
    constructor
    · rintro ⟨i, hkind, h⟩
      rcases (ih s i).mp h with ⟨value, s₁, hp, hk⟩ | ⟨error, hp, hresult⟩
      · exact Or.inl ⟨value, s₁, ⟨i, hkind, hp⟩, hk⟩
      · exact Or.inr ⟨error, ⟨i, hkind, hp⟩, hresult⟩
    · rintro (⟨value, s₁, ⟨i, hkind, hp⟩, hk⟩ | ⟨error, ⟨i, hkind, hp⟩, hresult⟩)
      · exact ⟨i, hkind, (ih s i).mpr (Or.inl ⟨value, s₁, hp, hk⟩)⟩
      · exact ⟨i, hkind, (ih s i).mpr (Or.inr ⟨error, hp, hresult⟩)⟩

theorem alone_tryCatch {h : ε → Prog τ σ ι ε α} {result : Except ε α} :
    (tryCatch p h).Alone kind s result s' ↔
      (∃ value, p.Alone kind s (.ok value) s' ∧ result = .ok value) ∨
        ∃ error s₁, p.Alone kind s (.error error) s₁ ∧ (h error).Alone kind s₁ result s' := by
  induction p generalizing s with
  | ret value =>
    constructor
    · rintro ⟨rfl, rfl⟩
      exact Or.inl ⟨value, ⟨rfl, rfl⟩, rfl⟩
    · rintro (⟨value, ⟨heq, rfl⟩, rfl⟩ | ⟨error, s₁, ⟨heq, -⟩, -⟩)
      · cases heq
        exact ⟨rfl, rfl⟩
      · cases heq
  | raise error =>
    constructor
    · intro hraise
      exact Or.inr ⟨error, s, ⟨rfl, rfl⟩, hraise⟩
    · rintro (⟨value, ⟨heq, -⟩, -⟩ | ⟨error, s₁, ⟨heq, rfl⟩, hh⟩)
      · cases heq
      · cases heq
        exact hh
  | act tag effect next ih =>
    constructor
    · rintro ⟨i, hkind, hnext⟩
      rcases (ih s i).mp hnext with ⟨value, hp, hresult⟩ | ⟨error, s₁, hp, hh⟩
      · exact Or.inl ⟨value, ⟨i, hkind, hp⟩, hresult⟩
      · exact Or.inr ⟨error, s₁, ⟨i, hkind, hp⟩, hh⟩
    · rintro (⟨value, ⟨i, hkind, hp⟩, hresult⟩ | ⟨error, s₁, ⟨i, hkind, hp⟩, hh⟩)
      · exact ⟨i, hkind, (ih s i).mpr (Or.inl ⟨value, hp, hresult⟩)⟩
      · exact ⟨i, hkind, (ih s i).mpr (Or.inr ⟨error, s₁, hp, hh⟩)⟩

end Alone

namespace Prog.Every

variable {rel rel' : σ → σ → Prop}

theorem bind {k : α → Prog τ σ ι ε β} (h : p.Every rel)
    (hk : ∀ value, (k value).Every rel) : (p >>= k).Every rel := by
  induction p with
  | ret value => exact hk value
  | raise error => exact trivial
  | act tag effect next ih => exact fun s i => ⟨(h s i).1, ih s i (h s i).2⟩

theorem tryCatch {handler : ε → Prog τ σ ι ε α} (h : p.Every rel)
    (hhandler : ∀ error, (handler error).Every rel) :
    (MonadExcept.tryCatch p handler).Every rel := by
  induction p with
  | ret value => exact trivial
  | raise error => exact hhandler error
  | act tag effect next ih => exact fun s i => ⟨(h s i).1, ih s i (h s i).2⟩

end Prog.Every

end Program
