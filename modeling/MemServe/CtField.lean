import MemServe.Ct
import MemServe.CurveGroup

/-!
The arithmetic in words is that of the field, and complete addition on it that of the group.

`Fe.Is a x` says that the words `a` are the element `x`, reduced. All the operations keep it, so a
straight-line program over them computes what its text says in the field.
-/

namespace MemServe.Crypto

open Words ShortWeierstrass

def Fe.val (a : Fe) : ℕ := value a.words

lemma Fe.val_lt (a : Fe) : a.val < 2 ^ 256 := by
  have h := value_lt a.words
  rwa [a.length_words] at h

lemma Fe.ext_val {a b : Fe} (h : a.val = b.val) : a = b := by
  obtain ⟨a, ha⟩ := a
  obtain ⟨b, hb⟩ := b
  rw [Fe.mk.injEq]
  exact value_inj (ha.trans hb.symm) h

@[simp] lemma Fe.val_of (w0 w1 w2 w3 : UInt64) :
    (Fe.of w0 w1 w2 w3).val = w0.toNat + 2 ^ 64 *
      (w1.toNat + 2 ^ 64 * (w2.toNat + 2 ^ 64 * w3.toNat)) := rfl

lemma pl_val : pl.val = fieldOrder := by decide

lemma two_pow_256 : 2 ^ 256 = fieldOrder + feC.toNat := by decide

lemma feC_toNat : feC.toNat = 0x1000003D1 := rfl

lemma cast_two_pow_256 : (2 : Fp) ^ 256 = feC.toNat := by
  have h := congrArg (Nat.cast : ℕ → Fp) two_pow_256
  rw [Nat.cast_add, ZMod.natCast_self, zero_add] at h
  exact_mod_cast h

lemma cast_carry {r c t : ℕ} (h : r + 2 ^ 256 * c = t) : (r : Fp) + feC.toNat * c = t := by
  rw [← h, ← cast_two_pow_256]
  simp only [Nat.cast_add, Nat.cast_mul, Nat.cast_pow, Nat.cast_ofNat]

namespace Limbs

variable (A : WordOps) {a b r : Fe} {c : UInt64}

lemma addc_spec (a b : Fe) :
    (addc A a b).1.val + 2 ^ 256 * (addc A a b).2.toNat = a.val + b.val ∧
      (addc A a b).2.toNat ≤ 1 := by
  obtain ⟨h, hc⟩ := @Words.addc_spec A a.words b.words 0 (by rw [a.2, b.2]) (by simp)
  rw [a.length_words] at h
  exact ⟨h, hc⟩

lemma subb_spec (a b : Fe) :
    (subb A a b).1.val + b.val = a.val + 2 ^ 256 * (subb A a b).2.toNat ∧
      (subb A a b).2.toNat ≤ 1 := by
  obtain ⟨h, hc⟩ := @Words.subb_spec A a.words b.words 0 (by rw [a.2, b.2]) (by simp)
  rw [a.length_words] at h
  exact ⟨h, hc⟩

lemma eq_of_toNat_le_one (hc : c.toNat ≤ 1) : c = 0 ∨ c = 1 := by
  rcases Nat.le_one_iff_eq_zero_or_eq_one.mp hc with h | h
  · exact .inl (UInt64.toNat_inj.mp h)
  · exact .inr (UInt64.toNat_inj.mp h)

lemma select_one (a b : Fe) : select (0 - 1) a b = a := by
  have h := select_ones (by rw [a.2, b.2] : a.words.length = b.words.length)
  simp only [select, h]

lemma select_zero (a b : Fe) : select 0 a b = b := by
  have h := Words.select_zero (by rw [a.2, b.2] : a.words.length = b.words.length)
  simp only [select, h]

lemma condSubP_val (a : Fe) :
    (condSubP A a).val = if a.val < fieldOrder then a.val else a.val - fieldOrder := by
  obtain ⟨hsub, hb⟩ := subb_spec A a pl
  have hr := (subb A a pl).1.val_lt
  have ha := a.val_lt
  rw [pl_val] at hsub
  rcases eq_of_toNat_le_one hb with h | h
  · have hval : (condSubP A a).val = (subb A a pl).1.val := by
      simp only [condSubP, h]
      exact congrArg Fe.val (select_one _ _)
    rw [h, UInt64.toNat_zero] at hsub
    rw [hval, if_neg (by omega)]
    omega
  · have hval : (condSubP A a).val = a.val := by
      simp only [condSubP, h]
      exact congrArg Fe.val (select_zero _ _)
    rw [h, UInt64.toNat_one] at hsub
    rw [hval, if_pos (by omega)]

lemma fold_spec (r : Fe) (hc : c.toNat ≤ 1) :
    (fold A r c).1.val + 2 ^ 256 * (fold A r c).2.toNat = r.val + feC.toNat * c.toNat ∧
      (fold A r c).2.toNat ≤ 1 := by
  obtain ⟨h, hle⟩ := addc_spec A r (.of (c * feC) 0 0 0)
  refine ⟨?_, hle⟩
  rw [fold, h, Fe.val_of, UInt64.toNat_mul, feC_toNat]
  simp only [UInt64.toNat_zero]
  omega

end Limbs

namespace Limbs

variable (A : WordOps)

lemma mulWide_spec (a b : Fe) :
    (mulWide A a b).1.val + 2 ^ 256 * (mulWide A a b).2.val = a.val * b.val := by
  have hsplit : List.replicate 8 (0 : UInt64) = List.replicate 4 0 ++
      List.replicate a.words.length 0 := by
    rw [a.2]
    rfl
  have hspec := @mulRows_spec A a.words b.words (List.replicate 4 0) (by rw [b.2]; rfl)
  rw [← hsplit, value_replicate_zero, Nat.zero_add] at hspec
  have hlen : (mulRows A b.words a.words (List.replicate 8 0)).length = 8 := by
    rw [length_mulRows A (by rw [a.2, b.2]; rfl)]
    rfl
  have happ := value_append ((mulRows A b.words a.words (List.replicate 8 0)).take 4)
    ((mulRows A b.words a.words (List.replicate 8 0)).drop 4)
  rw [List.take_append_drop, hspec, List.length_take, hlen] at happ
  exact happ.symm

lemma mul256by64_spec (a : Fe) (b : UInt64) :
    (mul256by64 A a b).1.val + 2 ^ 256 * (mul256by64 A a b).2.toNat = a.val * b.toNat := by
  have hspec := @mulWord_spec A a.words 0 b
  have hlen : (mulWord A b a.words 0).length = 5 := by rw [length_mulWord A, a.2]
  have hne : mulWord A b a.words 0 ≠ [] := by
    intro h
    rw [h] at hlen
    cases hlen
  have hlast : mulWord A b a.words 0 = (mulWord A b a.words 0).take 4 ++
      [(mulWord A b a.words 0).getLastD 0] := by
    have h := List.dropLast_append_getLast hne
    rw [List.dropLast_eq_take, hlen] at h
    rw [List.getLastD_eq_getLast?, List.getLast?_eq_some_getLast hne, Option.getD_some]
    exact h.symm
  have happ := value_append ((mulWord A b a.words 0).take 4) [(mulWord A b a.words 0).getLastD 0]
  rw [← hlast, hspec, List.length_take, hlen, value_cons, value_nil, Nat.mul_zero, Nat.add_zero]
    at happ
  exact happ.symm

end Limbs

section

variable (A : WordOps) (a b : Fe)

lemma Limbs.add_eq :
    let s0 := Limbs.addc A a b
    let s1 := Limbs.fold A s0.1 s0.2
    Limbs.add A a b = Limbs.condSubP A (Limbs.fold A s1.1 s1.2).1 := rfl

/-- What a product passes through: its eight words `t`, the high half times `feC`, the sum `s` of
that and the low half, the word above times `feC`, the sum `u` with that, and the fold of its
carry. -/
structure Limbs.MulSteps where
  t : Fe × Fe
  m : Fe × UInt64
  s : Fe × UInt64
  l : UInt64 × UInt64
  u : Fe × UInt64
  r : Fe × UInt64

def Limbs.mulSteps : Limbs.MulSteps :=
  let t := Limbs.mulWide A a b
  let m := Limbs.mul256by64 A t.2 feC
  let s := Limbs.addc A t.1 m.1
  let l := A.mul (m.2 + s.2) feC
  let u := Limbs.addc A s.1 (.of l.2 l.1 0 0)
  ⟨t, m, s, l, u, Limbs.fold A u.1 u.2⟩

lemma Limbs.mul_eq : Limbs.mul A a b = Limbs.condSubP A (Limbs.mulSteps A a b).r.1 := rfl

/-- No carry is lost on the way to the product of `a` and `b`. -/
structure Limbs.MulSteps.Exact (st : Limbs.MulSteps) (a b : Fe) : Prop where
  product : st.t.1.val + 2 ^ 256 * st.t.2.val = a.val * b.val
  high : st.m.1.val + 2 ^ 256 * st.m.2.toNat = st.t.2.val * feC.toNat
  sum : st.s.1.val + 2 ^ 256 * st.s.2.toNat = st.t.1.val + st.m.1.val
  /-- The word above does not wrap. -/
  above : (st.m.2 + st.s.2).toNat = st.m.2.toNat + st.s.2.toNat
  word : st.l.2.toNat + 2 ^ 64 * st.l.1.toNat = (st.m.2 + st.s.2).toNat * feC.toNat
  fold : st.u.1.val + 2 ^ 256 * st.u.2.toNat = st.s.1.val + (st.m.2 + st.s.2).toNat * feC.toNat
  /-- The last fold leaves no carry. -/
  last : st.r.1.val = st.u.1.val + feC.toNat * st.u.2.toNat ∧ st.r.2 = 0

lemma Limbs.mulSteps_exact : (Limbs.mulSteps A a b).Exact a b := by
  have ht := Limbs.mulWide_spec A a b
  have hm := Limbs.mul256by64_spec A (Limbs.mulWide A a b).2 feC
  rw [mulSteps]
  generalize Limbs.mulWide A a b = t at ht hm ⊢
  generalize Limbs.mul256by64 A t.2 feC = m at hm ⊢
  obtain ⟨hs, hs1⟩ := Limbs.addc_spec A t.1 m.1
  generalize Limbs.addc A t.1 m.1 = s at hs hs1 ⊢
  have hl := A.mul_spec (m.2 + s.2) feC
  -- the word above the product by `feC` is at most `feC`
  have hr4 : (m.2 + s.2).toNat = m.2.toNat + s.2.toNat ∧ m.2.toNat + s.2.toNat ≤ feC.toNat := by
    have := t.2.val_lt
    rw [UInt64.toNat_add]
    rw [feC_toNat] at hm ⊢
    omega
  generalize A.mul (m.2 + s.2) feC = l at hl ⊢
  obtain ⟨hu, hu1⟩ := Limbs.addc_spec A s.1 (.of l.2 l.1 0 0)
  have hval : (Fe.of l.2 l.1 0 0).val = l.2.toNat + 2 ^ 64 * l.1.toNat := by simp
  rw [hval, hl] at hu
  generalize Limbs.addc A s.1 (.of l.2 l.1 0 0) = u at hu hu1 ⊢
  obtain ⟨hr, -⟩ := Limbs.fold_spec A u.1 hu1
  -- a carry leaves so little that there is no other
  have hlast : (Limbs.fold A u.1 u.2).2.toNat = 0 := by
    have := s.1.val_lt
    have := u.1.val_lt
    have hle := hr4.2
    rw [hr4.1] at hu
    rw [feC_toNat] at hu hr hle
    omega
  rw [hlast, Nat.mul_zero, Nat.add_zero] at hr
  exact ⟨ht, hm, hs, hr4.1, hl, hu, hr, UInt64.toNat_inj.mp hlast⟩

end

/-! ### Field elements -/

/-- The words are the element `x`, reduced. -/
structure Fe.Is (a : Fe) (x : Fp) : Prop where
  lt : a.val < fieldOrder
  eq : (a.val : Fp) = x

namespace Limbs

variable (A : WordOps) {a b : Fe} {x y : Fp}

lemma condSubP_is (h : (a.val : Fp) = x) : (condSubP A a).Is x := by
  have ha := a.val_lt
  have hp := two_pow_256
  rw [feC_toNat] at hp
  have hlt : feC.toNat < fieldOrder := by decide
  constructor
  · rw [condSubP_val]
    split_ifs with h
    · exact h
    · rw [feC_toNat] at hlt
      omega
  · rw [condSubP_val]
    split_ifs with hlt
    · exact h
    · rw [Nat.cast_sub (not_lt.mp hlt), ZMod.natCast_self, sub_zero, h]

end Limbs

variable (A : WordOps) {a b : Fe} {x y : Fp}

lemma Fe.Is.add (ha : a.Is x) (hb : b.Is y) : (Limbs.add A a b).Is (x + y) := by
  obtain ⟨h0, hc0⟩ := Limbs.addc_spec A a b
  obtain ⟨h1, hc1⟩ := Limbs.fold_spec A (Limbs.addc A a b).1 hc0
  obtain ⟨h2, -⟩ := Limbs.fold_spec A (Limbs.fold A (Limbs.addc A a b).1 (Limbs.addc A a b).2).1 hc1
  rw [Limbs.add_eq]
  generalize Limbs.addc A a b = s0 at h0 h1 h2 hc0 hc1 ⊢
  generalize Limbs.fold A s0.1 s0.2 = s1 at h1 h2 hc1 ⊢
  generalize Limbs.fold A s1.1 s1.2 = s2 at h2 ⊢
  -- a second carry leaves so little that there is no third
  have hlast : s2.2.toNat = 0 := by
    have := s0.1.val_lt
    have := s1.1.val_lt
    rw [feC_toNat] at h1 h2
    omega
  have h0' := cast_carry h0
  have h1' := cast_carry h1
  have h2' := cast_carry h2
  rw [hlast] at h2'
  push_cast at h0' h1' h2'
  refine Limbs.condSubP_is A ?_
  rw [← ha.eq, ← hb.eq]
  linear_combination h0' + h1' + h2'

lemma Fe.Is.sub (ha : a.Is x) (hb : b.Is y) : (Limbs.sub A a b).Is (x - y) := by
  obtain ⟨h0, hc0⟩ := Limbs.subb_spec A a b
  have halt := ha.lt
  have hblt := hb.lt
  have hp := two_pow_256
  have hr := (Limbs.subb A a b).1.val_lt
  have hval : (Limbs.sub A a b).val + b.val = a.val + fieldOrder * (Limbs.subb A a b).2.toNat := by
    rcases Limbs.eq_of_toNat_le_one hc0 with h | h
    · have hmask : (⟨pl.words.map (· &&& (0 - (Limbs.subb A a b).2)), rfl⟩ : Fe) = .of 0 0 0 0 := by
        rw [h]
        decide
      obtain ⟨h1, -⟩ := Limbs.addc_spec A (Limbs.subb A a b).1 (.of 0 0 0 0)
      have hs := (Limbs.addc A (Limbs.subb A a b).1 (.of 0 0 0 0)).1.val_lt
      simp only [Limbs.sub, hmask]
      simp only [Fe.val_of, UInt64.toNat_zero] at h1
      rw [h, UInt64.toNat_zero] at h0 ⊢
      omega
    · have hmask : (⟨pl.words.map (· &&& (0 - (Limbs.subb A a b).2)), rfl⟩ : Fe) = pl := by
        rw [h]
        decide
      obtain ⟨h1, hc1⟩ := Limbs.addc_spec A (Limbs.subb A a b).1 pl
      have hs := (Limbs.addc A (Limbs.subb A a b).1 pl).1.val_lt
      simp only [Limbs.sub, hmask]
      rw [pl_val] at h1
      rw [h, UInt64.toNat_one] at h0 ⊢
      omega
  constructor
  · have hr' := (Limbs.sub A a b).val_lt
    rcases Limbs.eq_of_toNat_le_one hc0 with h | h
    · rw [h, UInt64.toNat_zero] at hval
      omega
    · rw [h, UInt64.toNat_one] at hval h0
      omega
  · have h := congrArg (Nat.cast : ℕ → Fp) hval
    push_cast at h
    rw [ZMod.natCast_self] at h
    rw [← ha.eq, ← hb.eq]
    linear_combination h

lemma Limbs.mul_is (a b : Fe) : (Limbs.mul A a b).Is (a.val * b.val) := by
  have h := Limbs.mulSteps_exact A a b
  have ht := cast_carry h.product
  have hm := cast_carry h.high
  have hs := cast_carry h.sum
  have hu := cast_carry h.fold
  have hr := congrArg (Nat.cast : ℕ → Fp) h.last.1
  rw [h.above] at hu
  push_cast at ht hm hs hu hr
  rw [Limbs.mul_eq]
  refine Limbs.condSubP_is A ?_
  linear_combination ht + hm + hs + hu + hr

lemma Fe.Is.mul (ha : a.Is x) (hb : b.Is y) : (Limbs.mul A a b).Is (x * y) := by
  have h := Limbs.mul_is A a b
  rwa [ha.eq, hb.eq] at h

lemma Fe.Is.val_eq (ha : a.Is x) (hb : b.Is x) : a.val = b.val := by
  rw [← ZMod.val_natCast_of_lt ha.lt, ha.eq, ← hb.eq, ZMod.val_natCast_of_lt hb.lt]

lemma is_one : (Fe.of 1 0 0 0).Is 1 := ⟨by decide, by simp⟩

lemma is_zero : (Fe.of 0 0 0 0).Is 0 := ⟨by decide, by simp⟩

lemma Fe.Is.pow (ha : a.Is x) (exp : Fe) : (Limbs.pow A a exp).Is (x ^ exp.val) := by
  have hstep : ∀ (res : Fe) (n : ℕ) (b : Bool), res.Is (x ^ n) →
      (if b then Limbs.mul A (Limbs.mul A res res) a else Limbs.mul A res res).Is
          (x ^ Ladder.push n b) := by
    intro res n b hres
    have hsq := hres.mul A hres
    rw [← pow_add, ← two_mul] at hsq
    cases b with
    | false => exact hsq
    | true =>
      rw [Ladder.push, pow_add, Bool.toNat_true, pow_one]
      exact hsq.mul A ha
  have hrun :=
    Ladder.run hstep (bits exp.words) (by rw [pow_zero]; exact is_one : (Fe.of 1 0 0 0).Is (x ^ 0))
  rwa [foldl_push_bits] at hrun

lemma Fe.Is.inv (ha : a.Is x) : (Limbs.inv A a).Is x⁻¹ := by
  have hexp : pm2.val = fieldOrder - 2 := by decide
  have h := ha.pow A pm2
  rw [hexp] at h
  by_cases hx : x = 0
  · rw [hx, zero_pow (by decide)] at h
    rwa [hx, inv_zero]
  · rwa [pow_sub_two_eq_inv hx] at h

/-- The words are the projective coordinates `p`. -/
structure Jac.IsProj (P : Jac) (p : Proj Fp) : Prop where
  X : P.X.Is p.X
  Y : P.Y.Is p.Y
  Z : P.Z.Is p.Z

lemma feB3_is : feB3.Is 21 := ⟨by decide, by simp [feB3]⟩

lemma Fe.Is.of_eq {x' : Fp} (h : a.Is x) (heq : x = x') : a.Is x' := heq ▸ h

lemma Jac.IsProj.completeAdd {P Q : Jac} {p q : Proj Fp} (hp : P.IsProj p) (hq : Q.IsProj q) :
    (Limbs.completeAdd A P Q).IsProj (p.add 7 q) := by
  have ht0 := hp.X.mul A hq.X
  have ht1 := hp.Y.mul A hq.Y
  have ht2 := hp.Z.mul A hq.Z
  have ht3 := ((hp.X.add A hp.Y).mul A (hq.X.add A hq.Y)).sub A (ht0.add A ht1)
  have ht4 := ((hp.Y.add A hp.Z).mul A (hq.Y.add A hq.Z)).sub A (ht1.add A ht2)
  have hY3 := ((hp.X.add A hp.Z).mul A (hq.X.add A hq.Z)).sub A (ht0.add A ht2)
  have ht0' := (ht0.add A ht0).add A ht0
  have ht2' := feB3_is.mul A ht2
  have hZ3 := ht1.add A ht2'
  have ht1' := ht1.sub A ht2'
  have hY3' := feB3_is.mul A hY3
  constructor
  · refine ((ht3.mul A ht1').sub A (ht4.mul A hY3')).of_eq ?_
    simp only [Proj.add]
    ring
  · refine ((ht1'.mul A hZ3).add A (hY3'.mul A ht0')).of_eq ?_
    simp only [Proj.add]
    ring
  · refine ((hZ3.mul A ht4).add A (ht0'.mul A ht3)).of_eq ?_
    simp only [Proj.add]
    ring

/-- The words are projective coordinates of `Q`. -/
def Jac.Is (P : Jac) (Q : Curve.Point) : Prop := ∃ p : Proj Fp, P.IsProj p ∧ p.Is Q

variable {P P' : Jac} {Q Q' : Curve.Point}

lemma Jac.Is.add (hP : P.Is Q) (hP' : P'.Is Q') : (Limbs.completeAdd A P P').Is (Q + Q') := by
  obtain ⟨p, hp, hpQ⟩ := hP
  obtain ⟨q, hq, hqQ⟩ := hP'
  exact ⟨p.add 7 q, hp.completeAdd A hq, hpQ.add noTwoTorsion hqQ⟩

lemma identity_is : identity.Is 0 :=
  ⟨⟨0, 1, 0⟩, ⟨is_zero, is_one, is_zero⟩, Proj.is_zero.mpr ⟨rfl, one_ne_zero, rfl⟩⟩

lemma is_of_affine {X Y : Fe} (hX : X.Is x) (hY : Y.Is y) (hQ : coords Q = some (x, y)) :
    Jac.Is ⟨X, Y, .of 1 0 0 0⟩ Q :=
  ⟨⟨x, y, 1⟩, ⟨hX, hY, is_one⟩,
    (Proj.is_of_coords hQ).mpr ⟨one_ne_zero, (mul_one x).symm, (mul_one y).symm⟩⟩

lemma Jac.Is.z_eq_zero_iff (hP : P.Is Q) : P.Z.val = 0 ↔ Q = 0 := by
  obtain ⟨p, hp, hpQ⟩ := hP
  have hZ : P.Z.val = 0 ↔ p.Z = 0 := by
    rw [← hp.Z.eq, ZMod.natCast_eq_zero_iff]
    exact ⟨fun h => h ▸ Nat.dvd_zero _, fun h => Nat.eq_zero_of_dvd_of_lt h hp.Z.lt⟩
  rw [hZ]
  cases hQ : coords Q with
  | none =>
    obtain rfl := coords_eq_none.mp hQ
    exact ⟨fun _ => rfl, fun _ => (Proj.is_zero.mp hpQ).2.2⟩
  | some xy =>
    have hne := ((Proj.is_of_coords hQ).mp hpQ).1
    have hQ0 : Q ≠ 0 := by
      intro h
      rw [coords_eq_none.mpr h] at hQ
      cases hQ
    exact ⟨fun h => absurd h hne, fun h => absurd h hQ0⟩

lemma Jac.Is.affineX (hP : P.Is Q) (hQ : coords Q = some (x, y)) : (Limbs.affineX A P).Is x := by
  obtain ⟨p, hp, hpQ⟩ := hP
  obtain ⟨hZ, hX, -⟩ := (Proj.is_of_coords hQ).mp hpQ
  refine (hp.X.mul A (hp.Z.inv A)).of_eq ?_
  rw [hX, mul_inv_cancel_right₀ hZ]

lemma Jac.Is.push {R : Jac} {n : ℕ} (hR : R.Is (n • Q)) (hP : P.Is Q) (b : Bool) :
    (if b then Limbs.completeAdd A (Limbs.completeAdd A R R) P else Limbs.completeAdd A R R).Is
      (Ladder.push n b • Q) := by
  have hdouble := hR.add A hR
  rw [← two_nsmul, ← mul_nsmul'] at hdouble
  cases b with
  | false => exact hdouble
  | true =>
    rw [Ladder.push, add_nsmul, Bool.toNat_true, one_nsmul]
    exact hdouble.add A hP

lemma big_eq_val (f : Fe) : f.big = f.val := by
  have h : ∀ l : List UInt64, ofBytesBE (l.reverse.flatMap fun w => beBytes 8 w.toNat) =
      value l := by
    intro l
    induction l with
    | nil => rfl
    | cons w l ih =>
      have hw : w.toNat < 256 ^ 8 := w.toNat_lt
      rw [List.reverse_cons, List.flatMap_append, ofBytesBE_append, ih, List.flatMap_singleton,
        length_beBytes, ofBytesBE_beBytes, Nat.mod_eq_of_lt hw, value_cons]
      ring
  exact h f.words

lemma val_ofBytes_beBytes {k : ℕ} (hk : k < 2 ^ 256) : value (ofBytes (beBytes 32 k)) = k := by
  have hk' : k < 256 ^ 32 := hk
  rw [value_ofBytes (length_beBytes 32 k), ofBytesBE_beBytes, Nat.mod_eq_of_lt hk']

lemma scalarBits_val {k : ℕ} (hk : k < 2 ^ 256) : (scalarBits k).val = k := val_ofBytes_beBytes hk

lemma feFromBig_is {x : ℤ} (hx : InField x) : (feFromBig x).Is x := by
  obtain ⟨h0, hlt⟩ := hx
  rw [curveP_eq] at hlt
  obtain ⟨n, rfl⟩ := Int.eq_ofNat_of_zero_le h0
  have hn : n < fieldOrder := by exact_mod_cast hlt
  have hval : (feFromBig n).val = n := val_ofBytes_beBytes (hn.trans fieldOrder_lt)
  exact ⟨by rwa [hval], by rw [hval, Int.cast_natCast]⟩

lemma ctBaseG_is : ctBaseG.Is generator := by
  obtain ⟨hx, hy, hcoords⟩ := represents_generator
  exact is_of_affine (feFromBig_is hx) (feFromBig_is hy) hcoords

lemma jacCSelect_eq (b : Bool) (S T : Jac) : jacCSelect b.toUInt64 S T = if b then S else T := by
  cases b with
  | false =>
    have hmask : 0 - Bool.toUInt64 false = 0 := rfl
    simp only [jacCSelect, feCSelect, hmask, Limbs.select_zero, Bool.false_eq_true, if_false]
  | true =>
    have hmask : 0 - Bool.toUInt64 true = 0 - 1 := rfl
    simp only [jacCSelect, feCSelect, hmask, Limbs.select_one, if_true]

lemma Jac.Is.scalarMultCT (hP : P.Is Q) (k : Fe) : (scalarMultCT k P).Is (k.val • Q) := by
  have hstep : ∀ (R : Jac) (n : ℕ) (b : Bool), R.Is (n • Q) →
      (let R := completeAdd R R
       let T := completeAdd R P
       jacCSelect b.toUInt64 T R).Is (Ladder.push n b • Q) := by
    intro R n b hR
    dsimp only
    rw [jacCSelect_eq]
    exact hR.push goOps hP b
  have hrun :=
    Ladder.run hstep (bits k.words) (by rw [zero_nsmul]; exact identity_is : identity.Is (0 • Q))
  rwa [foldl_push_bits] at hrun

/-- A reduced element is the remainder of the number it stands for. -/
lemma Fe.Is.big {z : ℤ} (h : a.Is (z : Fp)) : (a.big : ℤ) = z % curveP := by
  have hval : a.val = (z : Fp).val := by rw [← h.eq, ZMod.val_natCast_of_lt h.lt]
  rw [big_eq_val, hval, ZMod.val_intCast, curveP_eq]

lemma is_of_big_lt (h : (a.big : ℤ) < curveP) : a.Is (a.big : ℤ) := by
  rw [big_eq_val, curveP_eq] at h
  rw [big_eq_val]
  exact ⟨by exact_mod_cast h, by push_cast; rfl⟩

/-- **The field arithmetic is exact.** Sums and differences of reduced elements are the reduced
ones, and so are products of any numbers of four words. A product is exact at every step: the eight
words, the product by a single word, and both folds, after which no carry is left. An element that
is not 0 times its inverse is 1. -/
theorem fe_exact (a b : Fe) :
    ((a.big : ℤ) < curveP → (b.big : ℤ) < curveP →
      ((feAdd a b).big : ℤ) = (a.big + b.big) % curveP ∧
        ((feSub a b).big : ℤ) = (a.big - b.big) % curveP) ∧
    ((feMul a b).big : ℤ) = a.big * b.big % curveP ∧
    feMul a b = feCondSubP (Limbs.mulSteps goOps a b).r.1 ∧ (Limbs.mulSteps goOps a b).Exact a b ∧
    (∀ w, (mul256by64 a w).1.big + 2 ^ 256 * (mul256by64 a w).2.toNat = a.big * w.toNat) ∧
    ((a.big : ℤ) < curveP → a.big ≠ 0 → feMul a (feInv a) = .of 1 0 0 0) := by
  refine ⟨fun ha hb => ⟨?_, ?_⟩, ?_, Limbs.mul_eq goOps a b, Limbs.mulSteps_exact goOps a b,
    fun w => ?_, fun ha h0 => ?_⟩
  · have hsum := (is_of_big_lt ha).add goOps (is_of_big_lt hb)
    rw [← Int.cast_add] at hsum
    exact hsum.big
  · have hdiff := (is_of_big_lt ha).sub goOps (is_of_big_lt hb)
    rw [← Int.cast_sub] at hdiff
    exact hdiff.big
  · have hmul : (feMul a b).Is ((a.big * b.big : ℤ) : Fp) := by
      rw [big_eq_val, big_eq_val]
      push_cast
      exact Limbs.mul_is goOps a b
    exact hmul.big
  · rw [big_eq_val, big_eq_val]
    exact Limbs.mul256by64_spec goOps a w
  · have hx := is_of_big_lt ha
    have hne : ((a.big : ℤ) : Fp) ≠ 0 := by
      rw [Int.cast_natCast]
      refine intCast_natCast_ne_zero (Nat.pos_of_ne_zero h0) ?_
      rw [curveP_eq] at ha
      exact_mod_cast ha
    have hone := hx.mul goOps (hx.inv goOps)
    rw [mul_inv_cancel₀ hne] at hone
    exact Fe.ext_val (hone.val_eq is_one)

/-- Of the greatest element and 2: the sum passes `2 ^ 256`, and 2 has an inverse. -/
theorem fe_exact_wraps :
    ((feAdd (.of 2 0 0 0)
      (.of 0xFFFFFFFEFFFFFC2E 0xFFFFFFFFFFFFFFFF 0xFFFFFFFFFFFFFFFF 0xFFFFFFFFFFFFFFFF)).big : ℤ) =
      1 ∧
      feMul (.of 2 0 0 0) (feInv (.of 2 0 0 0)) = .of 1 0 0 0 := by
  obtain ⟨hadd, -, -, -, -, hinv⟩ := fe_exact (.of 2 0 0 0)
    (.of 0xFFFFFFFEFFFFFC2E 0xFFFFFFFFFFFFFFFF 0xFFFFFFFFFFFFFFFF 0xFFFFFFFFFFFFFFFF)
  refine ⟨(hadd (by decide) (by decide)).1.trans (by decide), hinv (by decide) (by decide)⟩

end MemServe.Crypto
