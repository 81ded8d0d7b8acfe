import Mathlib.Algebra.Order.Field.Basic
import Mathlib.Data.List.Perm.Basic
import Mathlib.Data.List.Nodup
import Mathlib.Tactic.Linarith
import Mathlib.Tactic.Ring

set_option autoImplicit false

/-! # Pursuit of targets

A follower moves along a line toward one target after another. In each round it moves by a stride,
pays for it from the budget of the leg and looks where it is, each once and in any order; it may
also look between rounds. Where it sees that it has reached the target of the leg, up to a
tolerance, or has passed it, the next leg begins, with a budget of its own.

If the targets are two strides apart and the budgets last from one to the next, the follower never
runs out of budget and arrives at the last target in time (`run_arrives`). -/

namespace Pursuit

/-- The targets of the legs, the budgets granted for them, and the constants of a round. -/
structure Course (K : Type) where
  legs : ℕ
  target : ℕ → K
  grant : ℕ → K
  stride : K
  cost : K
  tolerance : K

/-- Where the follower is, and where it was when it last looked. -/
structure State (K : Type) where
  leg : ℕ
  position : K
  seen : K
  budget : K

inductive Action where
  | move | pay | look
  deriving DecidableEq

variable {K : Type} [Field K] [LinearOrder K]

/-- One action. -/
def State.act (C : Course K) (s : State K) : Action → State K
  | .move => { s with position := s.position + C.stride }
  | .pay => { s with budget := s.budget - C.cost }
  | .look =>
      if s.leg < C.legs ∧ C.target s.leg - C.tolerance < s.position then
        ⟨s.leg + 1, s.position, s.position, C.grant (s.leg + 1)⟩
      else { s with seen := s.position }

/-- One round; once it has arrived the follower rests. -/
def State.round (C : Course K) (s : State K) (order : List Action) : State K :=
  if s.leg < C.legs then order.foldl (State.act C) s else s

/-- What happens next: a round in some order, or a look in between. -/
inductive Input where
  | round (order : List Action)
  | look

def State.step (C : Course K) (s : State K) : Input → State K
  | .round order => s.round C order
  | .look => s.act C .look

def State.run (C : Course K) (s : State K) (is : List Input) : State K :=
  is.foldl (State.step C) s

/-- The actions of a round. -/
def actions : List Action := [.move, .pay, .look]

/-- Every round has each action once. -/
def Fair (is : List Input) : Prop := ∀ order, .round order ∈ is → order.Perm actions

/-- The number of rounds. -/
def rounds (is : List Input) : ℕ :=
  is.countP fun i => match i with
    | .round _ => true
    | .look => false

/-- A course the follower can complete. -/
structure Course.Passable (C : Course K) : Prop where
  stride_pos : 0 < C.stride
  cost_pos : 0 < C.cost
  tolerance_pos : 0 < C.tolerance
  apart : ∀ i, i + 1 < C.legs → C.target i + 2 * C.stride ≤ C.target (i + 1)
  enough : ∀ i, i + 1 < C.legs →
    (C.target (i + 1) - C.target i + C.tolerance) * C.cost + 3 * C.cost * C.stride ≤
      C.grant (i + 1) * C.stride

/-! ## The invariant -/

section

variable (C : Course K) (todo : List Action) (s : State K)

/-- Where the follower will be at the end of the round. -/
def State.ahead : K := s.position + todo.count .move * C.stride

/-- On the way, with these actions of the round left to do. -/
structure OnCourse : Prop where
  underway : s.leg < C.legs
  unseen : s.seen ≤ C.target s.leg - C.tolerance
  near : s.ahead C todo ≤
    C.target s.leg - C.tolerance + (1 + todo.count .look) * C.stride
  funded : (C.target s.leg - s.ahead C todo) * C.cost + 2 * C.cost * C.stride ≤
    (s.budget - todo.count .pay * C.cost) * C.stride

/-- At the last target, within the tolerance before it and two strides behind that. -/
structure Arrived : Prop where
  done : s.leg = C.legs
  reached : C.target (C.legs - 1) - C.tolerance < s.ahead C todo
  near : s.ahead C todo ≤ C.target (C.legs - 1) - C.tolerance + 2 * C.stride

end

variable {C : Course K} {todo todo' : List Action} {s : State K}

theorem State.round_underway (h : s.leg < C.legs) (order : List Action) :
    s.round C order = order.foldl (State.act C) s :=
  if_pos h

theorem State.round_done (h : s.leg = C.legs) (order : List Action) : s.round C order = s :=
  if_neg (h ▸ lt_irrefl _)

theorem State.run_append (is is' : List Input) :
    s.run C (is ++ is') = (s.run C is).run C is' :=
  List.foldl_append

theorem State.look_done (h : s.leg = C.legs) :
    s.act C .look = { s with seen := s.position } :=
  if_neg fun hboth => lt_irrefl _ (h ▸ hboth.1)

variable [IsStrictOrderedRing K]

theorem count_le_one {a b : Action} (h : (a :: todo).Nodup) : todo.count b ≤ 1 :=
  List.nodup_iff_count_le_one.1 h.of_cons b

/-- On the way there is always enough for the next payment. -/
theorem OnCourse.affords (hC : C.Passable) (h : OnCourse C (.pay :: todo) s)
    (hnodup : (Action.pay :: todo).Nodup) : C.cost < s.budget := by
  have hlook : ((todo.count .look : ℕ) : K) ≤ 1 := by exact_mod_cast count_le_one hnodup
  have hpay : todo.count .pay = 0 := List.count_eq_zero.2 (List.nodup_cons.1 hnodup).1
  have hnear := h.near
  have hfunded := h.funded
  rw [List.count_cons_of_ne (by decide)] at hnear
  rw [List.count_cons_self, hpay] at hfunded
  have hlookStride : (todo.count .look : K) * C.stride ≤ 1 * C.stride :=
    mul_le_mul_of_nonneg_right hlook hC.stride_pos.le
  -- the rest of the leg costs at least as much as the tolerance
  have hleft : C.tolerance - 2 * C.stride ≤ C.target s.leg - s.ahead C (.pay :: todo) := by
    linarith
  have hprice := mul_le_mul_of_nonneg_right hleft hC.cost_pos.le
  have hrest : 0 < (s.budget - C.cost) * C.stride := by
    have := mul_pos hC.tolerance_pos hC.cost_pos
    push_cast at hfunded
    linarith
  exact sub_pos.1 ((mul_pos_iff_of_pos_right hC.stride_pos).1 hrest)

/-! ## One action -/

/-- **A look**, in its turn or in between. -/
theorem OnCourse.look (hC : C.Passable) (h : OnCourse C todo s)
    (hmove : todo'.count .move = todo.count .move) (hpay : todo'.count .pay = todo.count .pay)
    (hmoves : todo.count .move ≤ 1) (hpays : todo.count .pay ≤ 1)
    (hlooks : todo.count .look ≤ 1) :
    OnCourse C todo' (s.act C .look) ∨ Arrived C todo' (s.act C .look) := by
  have hstride := hC.stride_pos
  have hmove₁ : (todo.count .move : K) * C.stride ≤ 1 * C.stride :=
    mul_le_mul_of_nonneg_right (by exact_mod_cast hmoves) hstride.le
  have hmove₀ : 0 ≤ (todo.count .move : K) * C.stride :=
    mul_nonneg (Nat.cast_nonneg _) hstride.le
  have hlook₁ : (todo.count .look : K) * C.stride ≤ 1 * C.stride :=
    mul_le_mul_of_nonneg_right (by exact_mod_cast hlooks) hstride.le
  have hlook₀ : 0 ≤ (todo'.count .look : K) * C.stride :=
    mul_nonneg (Nat.cast_nonneg _) hstride.le
  have hnear := h.near
  have hfunded := h.funded
  unfold State.ahead at hnear hfunded
  unfold State.act
  by_cases hreached : C.target s.leg - C.tolerance < s.position
  · rw [if_pos ⟨h.underway, hreached⟩]
    rcases Nat.lt_or_ge (s.leg + 1) C.legs with hmore | hlast
    · -- the next leg starts within two strides of the old target
      have hapart := hC.apart s.leg hmore
      refine .inl ⟨hmore, ?_, ?_, ?_⟩
      · show s.position ≤ C.target (s.leg + 1) - C.tolerance
        linarith
      · show s.position + _ * C.stride ≤ _
        rw [hmove]
        linarith
      · show (C.target (s.leg + 1) - (s.position + _ * C.stride)) * C.cost + _ ≤
          (C.grant (s.leg + 1) - _ * C.cost) * C.stride
        rw [hmove, hpay]
        have henough := hC.enough s.leg hmore
        have hcost : (todo.count .pay : K) * C.cost * C.stride ≤ 1 * C.cost * C.stride := by
          refine mul_le_mul_of_nonneg_right ?_ hstride.le
          refine mul_le_mul_of_nonneg_right ?_ hC.cost_pos.le
          exact_mod_cast hpays
        have hgap : (C.target (s.leg + 1) - (s.position + todo.count .move * C.stride)) * C.cost ≤
            (C.target (s.leg + 1) - C.target s.leg + C.tolerance) * C.cost :=
          mul_le_mul_of_nonneg_right (by linarith) hC.cost_pos.le
        linarith
    · have hleg : C.legs - 1 = s.leg := by
        have := h.underway
        omega
      refine .inr ⟨?_, ?_, ?_⟩
      · show s.leg + 1 = C.legs
        have := h.underway
        omega
      · show _ < s.position + _ * C.stride
        rw [hmove, hleg]
        linarith
      · show s.position + _ * C.stride ≤ _
        rw [hmove, hleg]
        linarith
  · rw [if_neg fun hboth => hreached hboth.2]
    refine .inl ⟨h.underway, not_lt.1 hreached, ?_, ?_⟩
    · show s.position + _ * C.stride ≤ C.target s.leg - _ + _
      rw [hmove]
      linarith [not_lt.1 hreached]
    · show (C.target s.leg - (s.position + _ * C.stride)) * C.cost + _ ≤
        (s.budget - _ * C.cost) * C.stride
      rw [hmove, hpay]
      exact hfunded

omit [IsStrictOrderedRing K] in
/-- Arriving is for good. -/
theorem Arrived.look (h : Arrived C todo s)
    (hmove : todo'.count .move = todo.count .move) : Arrived C todo' (s.act C .look) := by
  have hreached := h.reached
  have hnear := h.near
  unfold State.ahead at hreached hnear
  rw [State.look_done h.done]
  refine ⟨h.done, ?_, ?_⟩
  · show _ < s.position + _ * C.stride
    rwa [hmove]
  · show s.position + _ * C.stride ≤ _
    rwa [hmove]

/-- **Step lemma.** An action of the round, in its turn. -/
theorem act_onRoute (hC : C.Passable) {a : Action} (hnodup : (a :: todo).Nodup)
    (h : OnCourse C (a :: todo) s ∨ Arrived C (a :: todo) s) :
    OnCourse C todo (s.act C a) ∨ Arrived C todo (s.act C a) := by
  have hcount (b : Action) : (a :: todo).count b ≤ 1 := List.nodup_iff_count_le_one.1 hnodup b
  have hnone : todo.count a = 0 := List.count_eq_zero.2 (List.nodup_cons.1 hnodup).1
  cases a with
  | move =>
      have hahead : (s.act C .move).ahead C todo = s.ahead C (.move :: todo) := by
        simp [State.ahead, State.act, hnone]
      refine h.imp (fun h => ⟨h.underway, h.unseen, ?_, ?_⟩) fun h =>
        ⟨h.done, hahead ▸ h.reached, hahead ▸ h.near⟩
      · have hnear := h.near
        rw [List.count_cons_of_ne (by decide)] at hnear
        rw [hahead]
        exact hnear
      · have hfunded := h.funded
        rw [List.count_cons_of_ne (by decide)] at hfunded
        rw [hahead]
        exact hfunded
  | pay =>
      have hahead : (s.act C .pay).ahead C todo = s.ahead C (.pay :: todo) := by
        simp [State.ahead, State.act]
      refine h.imp (fun h => ⟨h.underway, h.unseen, ?_, ?_⟩) fun h =>
        ⟨h.done, hahead ▸ h.reached, hahead ▸ h.near⟩
      · have hnear := h.near
        rw [List.count_cons_of_ne (by decide)] at hnear
        rw [hahead]
        exact hnear
      · have hfunded := h.funded
        rw [List.count_cons_self, hnone] at hfunded
        rw [hahead, hnone]
        show (C.target s.leg - _) * C.cost + _ ≤ (s.budget - C.cost - _) * C.stride
        push_cast at hfunded ⊢
        linarith
  | look =>
      have hmove : todo.count .move = (Action.look :: todo).count .move :=
        (List.count_cons_of_ne (by decide)).symm
      have hpay : todo.count .pay = (Action.look :: todo).count .pay :=
        (List.count_cons_of_ne (by decide)).symm
      rcases h with h | h
      · exact h.look hC hmove hpay (hcount _) (hcount _) (hcount _)
      · exact .inr (h.look hmove)

/-- A whole round. -/
theorem foldl_onRoute (hC : C.Passable) {order : List Action} (hnodup : order.Nodup)
    (h : OnCourse C order s ∨ Arrived C order s) :
    OnCourse C [] (order.foldl (State.act C) s) ∨ Arrived C [] (order.foldl (State.act C) s) := by
  induction order generalizing s with
  | nil => exact h
  | cons a todo ih => exact ih hnodup.of_cons (act_onRoute hC hnodup h)

/-- The round begins: nothing is spent yet, and nothing moved. -/
theorem OnCourse.begin (h : OnCourse C [] s) {order : List Action} (horder : order.Perm actions) :
    OnCourse C order s := by
  have hcount (b : Action) : order.count b = 1 := by
    rw [horder.count_eq]
    cases b <;> rfl
  have hnear := h.near
  have hfunded := h.funded
  simp only [State.ahead, List.count_nil, Nat.cast_zero, zero_mul, add_zero] at hnear hfunded
  refine ⟨h.underway, h.unseen, ?_, ?_⟩
  · simp only [State.ahead, hcount, Nat.cast_one, one_mul]
    linarith
  · simp only [State.ahead, hcount, Nat.cast_one, one_mul]
    linarith

/-- **Step lemma** for rounds, and looks between them. -/
theorem step_onRoute (hC : C.Passable) {i : Input}
    (hfair : ∀ order, i = .round order → order.Perm actions)
    (h : OnCourse C [] s ∨ Arrived C [] s) :
    OnCourse C [] (s.step C i) ∨ Arrived C [] (s.step C i) := by
  cases i with
  | round order =>
      have horder := hfair order rfl
      show OnCourse C [] (s.round C order) ∨ Arrived C [] (s.round C order)
      rcases h with h | h
      · rw [State.round_underway h.underway]
        exact foldl_onRoute hC (horder.nodup_iff.2 (by decide)) (.inl (h.begin horder))
      · rw [State.round_done h.done]
        exact .inr h
  | look =>
      rcases h with h | h
      · exact h.look hC rfl rfl (Nat.zero_le _) (Nat.zero_le _) (Nat.zero_le _)
      · exact .inr (h.look rfl)

/-- **Run lemma.** -/
theorem run_onRoute (hC : C.Passable) {is : List Input} (hfair : Fair is)
    (h : OnCourse C [] s ∨ Arrived C [] s) :
    OnCourse C [] (s.run C is) ∨ Arrived C [] (s.run C is) := by
  refine List.foldlRecOn (motive := fun s => OnCourse C [] s ∨ Arrived C [] s) is _ h ?_
  exact fun s hs i hi => step_onRoute hC (fun order horder => hfair order (horder ▸ hi)) hs

/-! ## Progress -/

omit [IsStrictOrderedRing K] in
theorem leg_le_act (a : Action) : s.leg ≤ (s.act C a).leg := by
  cases a with
  | look =>
      unfold State.act
      dsimp only
      split
      · exact Nat.le_succ _
      · exact le_rfl
  | _ => exact le_rfl

omit [IsStrictOrderedRing K] in
theorem leg_le_step (i : Input) : s.leg ≤ (s.step C i).leg := by
  cases i with
  | round order =>
      show s.leg ≤ (s.round C order).leg
      unfold State.round
      split
      · exact List.foldlRecOn (motive := fun s' : State K => s.leg ≤ s'.leg) order _ le_rfl
          fun s' hs' a _ => hs'.trans (leg_le_act a)
      · exact le_rfl
  | look => exact leg_le_act .look

omit [IsStrictOrderedRing K] in
theorem leg_le_run (is : List Input) : s.leg ≤ (s.run C is).leg :=
  List.foldlRecOn (motive := fun s' : State K => s.leg ≤ s'.leg) is _ le_rfl
    fun _ hs' i _ => hs'.trans (leg_le_step i)

omit [LinearOrder K] [IsStrictOrderedRing K] in
theorem position_foldl [LinearOrder K] (order : List Action) :
    (order.foldl (State.act C) s).position = s.ahead C order := by
  induction order generalizing s with
  | nil => simp [State.ahead]
  | cons a order ih =>
      rw [List.foldl_cons, ih]
      cases a with
      | move =>
          simp only [State.ahead, State.act, List.count_cons_self]
          push_cast
          ring
      | pay => simp [State.ahead, State.act]
      | look =>
          have hne : Action.look ≠ .move := by decide
          simp only [State.ahead, State.act, List.count_cons_of_ne hne]
          split <;> rfl

omit [IsStrictOrderedRing K] in
/-- As long as it is on the way every round takes it a stride further. -/
theorem position_run {is : List Input} (hfair : Fair is) (h : (s.run C is).leg < C.legs) :
    (s.run C is).position = s.position + rounds is * C.stride := by
  induction is generalizing s with
  | nil => simp [State.run, rounds]
  | cons i is ih =>
      have hrest := ih (s := s.step C i) (fun order horder => hfair order (.tail _ horder)) h
      refine hrest.trans ?_
      cases i with
      | round order =>
          have hleg : s.leg < C.legs :=
            ((leg_le_step _).trans (leg_le_run is)).trans_lt h
          have hmoved : (s.step C (.round order)).position = s.position + C.stride := by
            show (s.round C order).position = _
            rw [State.round_underway hleg, position_foldl, State.ahead,
              (hfair order List.mem_cons_self).count_eq]
            simp [actions]
          rw [hmoved, rounds, rounds, List.countP_cons_of_pos rfl]
          push_cast
          ring
      | look =>
          have hstayed : (s.step C .look).position = s.position := by
            show (s.act C .look).position = _
            unfold State.act
            dsimp only
            split <;> rfl
          rw [hstayed, rounds, rounds, List.countP_cons_of_neg (by simp)]

/-- The last target is the farthest. -/
theorem Course.Passable.target_le (hC : C.Passable) {i : ℕ} (hi : i < C.legs) :
    C.target i ≤ C.target (C.legs - 1) := by
  have hfrom (k : ℕ) : i + k < C.legs → C.target i ≤ C.target (i + k) := by
    induction k with
    | zero => exact fun _ => le_rfl
    | succ k ih =>
        intro hk
        have hnext := hC.apart (i + k) hk
        have hstride := hC.stride_pos
        have hbefore := ih (by omega)
        rw [← add_assoc]
        linarith
  have hlast := hfrom (C.legs - 1 - i) (by omega)
  rwa [show i + (C.legs - 1 - i) = C.legs - 1 by omega] at hlast

/-- **The follower arrives in time**: when the strides of the rounds add up to more than what
    separates it from the last target, up to one stride. -/
theorem run_arrives (hC : C.Passable) {is : List Input} (hfair : Fair is) (h : OnCourse C [] s)
    (hlong : C.target (C.legs - 1) - C.tolerance + C.stride < s.position + rounds is * C.stride) :
    Arrived C [] (s.run C is) := by
  refine (run_onRoute hC hfair (.inl h)).resolve_left fun hway => ?_
  have hnear := hway.near
  have htarget := hC.target_le hway.underway
  simp only [State.ahead, List.count_nil, Nat.cast_zero, zero_mul, add_zero, one_mul] at hnear
  rw [position_run hfair hway.underway] at hnear
  linarith

end Pursuit
