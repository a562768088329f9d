import Tabletop.Formula.Evaluation

-- Evaluations taken apart: what a part of a formula comes to is rolled before what follows it, and
-- texts are evaluated as they are read.
namespace Tabletop.Formula

open Tabletop.Text

variable {data : RollData} {dice dice' : Dice} {e : Formula} {v : Evaluation}

theorem run_bind {α β : Type} (x : Rolling α) (f : α → Rolling β) (dice : Dice) :
    (x >>= f).run dice = match x.run dice with
      | (.ok a, mid) => (f a).run mid
      | (.error u, mid) => (.error u, mid) := by
  rw [ExceptT.run_bind]
  change StateT.bind x.run _ dice = _
  cases hx : x.run dice with
  | mk r mid =>
    rw [StateT.bind, show x.run dice = (r, mid) from hx]
    cases r <;> rfl

theorem run_bind_eq_ok {α β : Type} {x : Rolling α} {f : α → Rolling β} {b : β}
    (h : (x >>= f).run dice = (.ok b, dice')) :
    ∃ a mid, x.run dice = (.ok a, mid) ∧ (f a).run mid = (.ok b, dice') := by
  rw [run_bind] at h
  split at h
  · next a mid hx => exact ⟨a, mid, hx, h⟩
  · cases h

theorem run_lift_bind {α β : Type} {outcome : Except Undefined α} {a : α} (h : outcome = .ok a)
    (f : α → Rolling β) (dice : Dice) :
    ((liftM outcome : Rolling α) >>= f).run dice = (f a).run dice := by
  subst h
  rfl

theorem run_lift_bind_eq_ok {α β : Type} {outcome : Except Undefined α} {f : α → Rolling β} {b : β}
    (h : ((liftM outcome : Rolling α) >>= f).run dice = (.ok b, dice')) :
    ∃ a, outcome = .ok a ∧ (f a).run dice = (.ok b, dice') := by
  cases outcome with
  | error u => cases h
  | ok a => exact ⟨a, rfl, h⟩

theorem allBlank_of_parse {text : String} (h : parse text = .ok e) : allBlank text = false := by
  cases hblank : allBlank text with
  | false => rfl
  | true => simp [parse, hblank] at h

theorem run_evaluate {text : String} (h : parse text = .ok e) (data : RollData) (dice : Dice) :
    (evaluate text data).run dice = match (eval data e).run dice with
      | (.ok result, dice) => (.ok result, dice)
      | (.error u, dice) => (.error (.evaluation text u.message), dice) := by
  rw [evaluate, allBlank_of_parse h, h]
  rfl

theorem evaluate_eq_ok {text : String} (h : (evaluate text data).run dice = (.ok v, dice')) :
    (allBlank text = true ∧ v = .zero ∧ dice' = dice) ∨
      ∃ e, parse text = .ok e ∧ (eval data e).run dice = (.ok v, dice') := by
  by_cases hblank : allBlank text = true
  · rw [evaluate, if_pos hblank] at h
    obtain ⟨hzero, hdice⟩ := Prod.mk.inj h
    exact .inl ⟨hblank, (Except.ok.inj hzero).symm, hdice.symm⟩
  · cases hparse : parse text with
    | error m =>
      rw [evaluate, if_neg hblank, hparse] at h
      cases h
    | ok e =>
      rw [run_evaluate hparse] at h
      split at h
      · next result mid heval =>
        cases h
        exact .inr ⟨e, rfl, heval⟩
      · cases h

theorem run_eq_of_fst {text : String} (h : ((evaluate text data).run dice).1 = .ok v) :
    (evaluate text data).run dice = (.ok v, ((evaluate text data).run dice).2) := by
  rw [← h, Prod.eta]

end Tabletop.Formula
