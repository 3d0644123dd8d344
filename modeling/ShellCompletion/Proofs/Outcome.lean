import Mathlib.Data.List.Forall2
import ShellCompletion.Logged

/-! When computations succeed. The result of a logged computation is that of the same computation without its
    log, so a run that succeeds is taken apart step by step. -/

namespace ShellCompletion

variable {ε α β : Type}

/-! ### Results -/

theorem bind_eq_ok {x : Except ε α} {f : α → Except ε β} {b : β} :
    (x >>= f) = .ok b ↔ ∃ a, x = .ok a ∧ f a = .ok b := by
  cases x <;> simp [bind, Except.bind]

theorem ok_bind (a : α) (f : α → Except ε β) : (Except.ok a >>= f) = f a := rfl

/-- Failures can be compared even where values cannot. -/
instance decidableEqError [DecidableEq ε] (x : Except ε α) (e : ε) : Decidable (x = .error e) :=
  match x with
  | .ok _ => isFalse nofun
  | .error e' => decidable_of_iff (e' = e) (by simp)

theorem toOption_eq_some {x : Except ε α} {a : α} : x.toOption = some a ↔ x = .ok a := by
  cases x <;> simp [Except.toOption]

theorem toOption_mapM (f : α → Except ε β) (l : List α) : (l.mapM f).toOption = l.mapM fun a => (f a).toOption := by
  induction l with
  | nil => rfl
  | cons a l ih =>
    rw [List.mapM_cons, List.mapM_cons, ← ih]
    cases f a with
    | error e => rfl
    | ok b => cases l.mapM f <;> rfl

/-- A list of computations succeeds if each of them does. -/
theorem mapM_eq_ok {f : α → Except ε β} {l : List α} {bs : List β} :
    l.mapM f = .ok bs ↔ List.Forall₂ (fun a b => f a = .ok b) l bs := by
  induction l generalizing bs with
  | nil => simp [pure, Except.pure, eq_comm]
  | cons a l ih =>
    simp only [List.mapM_cons, bind_eq_ok, ih, List.forall₂_cons_left_iff]
    constructor
    · rintro ⟨b, hb, bs, hbs, ⟨⟩⟩
      exact ⟨b, bs, hb, hbs, rfl⟩
    · rintro ⟨b, bs, hb, hbs, rfl⟩
      exact ⟨b, hb, bs, hbs, rfl⟩

theorem exists_unit {P : Unit → Prop} : (∃ u, P u) ↔ P () :=
  ⟨fun ⟨_, h⟩ => h, fun h => ⟨(), h⟩⟩

/-! ### Logged computations -/

namespace Logged

theorem bind_eq (x : Logged α) (f : α → Logged β) : x >>= f = andThen x f := rfl

theorem pure_bind_eq (a : α) (f : α → Logged β) : (pure a : Logged α) >>= f = f a := by
  simp [bind_eq, andThen, pure, lift]

theorem bind_pure_eq (x : Logged α) : x >>= pure = x := by
  obtain ⟨events, result⟩ := x
  cases result <;> simp [bind_eq, andThen, pure, lift]

theorem bind_assoc_eq {γ : Type} (x : Logged α) (f : α → Logged β) (g : β → Logged γ) :
    x >>= f >>= g = x >>= fun a => f a >>= g := by
  obtain ⟨events, result⟩ := x
  cases result with
  | error e => rfl
  | ok a =>
    simp only [bind_eq, andThen]
    cases (f a).result <;> simp

instance : LawfulMonad Logged := LawfulMonad.mk' Logged bind_pure_eq pure_bind_eq bind_assoc_eq

@[simp] theorem result_pure (a : α) : (pure a : Logged α).result = .ok a := rfl

@[simp] theorem result_lift (x : Except Failure α) : (lift x).result = x := rfl

theorem lift_bind (x : Except Failure α) (f : α → Except Failure β) :
    lift (x >>= f) = lift x >>= fun a => lift (f a) := by
  cases x <;> rfl

@[simp] theorem result_log (level : Level) (message : Text) : (log level message).result = .ok () := rfl

@[simp] theorem result_bind (x : Logged α) (f : α → Logged β) :
    (x >>= f).result = x.result >>= fun a => (f a).result := by
  simp only [bind_eq, andThen]
  cases x.result <;> rfl

/-- Logging does not change what a list of computations returns. -/
theorem result_mapM (f : α → Logged β) (l : List α) : (l.mapM f).result = l.mapM fun a => (f a).result := by
  induction l with
  | nil => rfl
  | cons a l ih =>
    simp only [List.mapM_cons, result_bind, ih]
    rfl

end Logged
end ShellCompletion
