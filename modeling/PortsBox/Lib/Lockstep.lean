import Mathlib.Data.Option.Defs
import Mathlib.Data.List.Forall2

/-!
# Two systems in lockstep

Two systems that answer one request after the other. When related states answer related
requests alike and stay related, whole runs get the same answers.
-/

set_option autoImplicit false

namespace PortsBox.Lockstep

universe u v
variable {S T : Type u} {A B : Type v} {Answer : Type}

/-- The answers to a list of requests, up to the first that is not taken. -/
def answers (serve : S → A → Option (Answer × S)) : S → List A → List Answer
  | _, [] => []
  | s, a :: as =>
    match serve s a with
    | none => []
    | some (answer, next) => answer :: answers serve next as

/-- One answer and two related states after it. -/
def SameAnswer (R : S → T → Prop) (x : Answer × S) (y : Answer × T) : Prop :=
  x.1 = y.1 ∧ R x.2 y.2

/-- Related states take the same requests, answer them alike and stay related. -/
def InStep (R : S → T → Prop) (Q : A → B → Prop) (left : S → A → Option (Answer × S))
    (right : T → B → Option (Answer × T)) : Prop :=
  ∀ s t a b, R s t → Q a b → Option.Rel (SameAnswer R) (left s a) (right t b)

variable {R : S → T → Prop} {Q : A → B → Prop} {left : S → A → Option (Answer × S)}
  {right : T → B → Option (Answer × T)}

theorem InStep.answers_eq (h : InStep R Q left right) {as : List A} {bs : List B}
    (hrequests : List.Forall₂ Q as bs) {s : S} {t : T} (hrelated : R s t) :
    answers left s as = answers right t bs := by
  induction hrequests generalizing s t with
  | nil => rfl
  | @cons a b as bs hrequest _ ih =>
    have hstep := h s t a b hrelated hrequest
    unfold answers
    cases hleft : left s a with
    | none =>
      rw [hleft] at hstep
      cases hright : right t b with
      | none => rfl
      | some y =>
        rw [hright] at hstep
        cases hstep
    | some x =>
      rw [hleft] at hstep
      cases hright : right t b with
      | none =>
        rw [hright] at hstep
        cases hstep
      | some y =>
        rw [hright] at hstep
        cases hstep with
        | some hsame =>
          obtain ⟨answer, s'⟩ := x
          obtain ⟨answer', t'⟩ := y
          obtain ⟨rfl, hafter⟩ := hsame
          exact congrArg (List.cons answer) (ih hafter)

end PortsBox.Lockstep
