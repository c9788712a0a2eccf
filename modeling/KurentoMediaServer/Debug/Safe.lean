import Mathlib.Data.Nat.Digits.Lemmas
import KurentoMediaServer.Foundations.CString

/-! The conversions of `Debug::Safe`, which print numbers into a buffer of the caller
without any allocation. `utoa` fills 32 characters from the end and keeps the last 30
digits; `itoa` does the same with C's division, so that a negative number takes it out
of its table of digits; `ptoa` copies the digits to the front of a buffer of 64. -/

namespace KurentoMediaServer.Debug

open Foundations.CString

/-- The characters of `"0123456789ABCDEF"`. -/
def digitTable : List Char := "0123456789ABCDEF".toList

/-- `"0123456789ABCDEF"[i]`, which has its terminator at 16; none outside the literal. -/
def digitAt (i : ℤ) : Option Char :=
  if 0 ≤ i then (digitTable ++ [nul])[i.toNat]? else none

/-- The loop of `itoa` and `utoa`, from the index `i`; also returned is where it ends. -/
def digitsLoop (res : ℕ) (base : ℤ) : ℕ → ℤ → (ℕ → Char) → Option (ℕ × (ℕ → Char))
  | 0, _, m => some (0, m)
  | i + 1, val, m =>
    if val = 0 then some (i + 1, m)
    else (digitAt (val.tmod base)).bind fun c =>
      digitsLoop res base i (val.tdiv base) (Function.update m (res + (i + 1)) c)

/-- `Safe::itoa`; none when it reads outside the literal. -/
def itoa (val : ℤ) (m : ℕ → Char) (res : ℕ) (base : ℤ) : Option (ℕ × (ℕ → Char)) :=
  if val = 0 then some (res, Function.update (Function.update m res '0') (res + 1) nul)
  else (digitsLoop res base 30 val (Function.update m (res + 31) nul)).map fun (i, m) =>
    if val < 0 then (res + i, Function.update m (res + i) '-') else (res + (i + 1), m)

/-- `Safe::utoa`; none when it reads outside the literal. -/
def utoa (val : ℕ) (m : ℕ → Char) (res : ℕ) (base : ℤ) : Option (ℕ × (ℕ → Char)) :=
  if val = 0 then some (res, Function.update (Function.update m res '0') (res + 1) nul)
  else (digitsLoop res base 30 val (Function.update m (res + 31) nul)).map fun (i, m) =>
    (res + (i + 1), m)

/-- `DeathHandler::kNeededMemory`. -/
def kNeededMemory : ℕ := 12288

/-- `Safe::ptoa`. -/
def ptoa (val : ℕ) (m : ℕ → Char) (memory : ℕ) : Option (ℕ × (ℕ → Char)) :=
  (utoa val m (memory + 32) 16).map fun (buf, m) =>
    let m := strcpy kNeededMemory m (memory + 2) buf
    (memory, Function.update (Function.update m memory '0') (memory + 1) 'x')

/-! ### What is printed -/

def digitChar (d : ℕ) : Char := digitTable.getD d nul

/-- The number a text stands for. -/
def valueOf (base : ℕ) (text : List Char) : ℕ :=
  Nat.ofDigits base (text.reverse.map digitTable.idxOf)

/-- The last 30 digits of a number. -/
def numeral (base val : ℕ) : List Char :=
  if val = 0 then ['0'] else (((base.digits val).take 30).map digitChar).reverse

theorem digitAt_natCast {d : ℕ} (hd : d < 16) : digitAt d = some (digitChar d) := by
  interval_cases d <;> rfl

theorem digitAt_of_neg {i : ℤ} (hi : i < 0) : digitAt i = none := if_neg (by omega)

theorem digitChar_ne_nul {d : ℕ} (hd : d < 16) : digitChar d ≠ nul := by
  interval_cases d <;> decide

theorem idxOf_digitChar {d : ℕ} (hd : d < 16) : digitTable.idxOf (digitChar d) = d := by
  interval_cases d <;> decide

section Numeral
variable {base : ℕ} (val : ℕ)

theorem valueOf_numeral (hb : 2 ≤ base) (hb' : base ≤ 16) :
    valueOf base (numeral base val) = val % base ^ 30 := by
  unfold numeral
  split_ifs with h0
  · subst h0
    rw [Nat.zero_mod]
    decide +revert
  · have hmap : ((base.digits val).take 30).map (digitTable.idxOf ∘ digitChar) =
        (base.digits val).take 30 :=
      (List.map_congr_left fun d hd => idxOf_digitChar
        ((Nat.digits_lt_base (by omega) (List.mem_of_mem_take hd)).trans_le hb')).trans
        (List.map_id _)
    rw [valueOf, List.reverse_reverse, List.map_map, hmap,
      ← Nat.self_mod_pow_eq_ofDigits_take 30 val (by omega)]

/-- A number below a power of the base has as many digits at most. -/
theorem length_numeral_le_of_lt (hb : 2 ≤ base) {k : ℕ} (hk : 0 < k) (h : val < base ^ k) :
    (numeral base val).length ≤ k := by
  unfold numeral
  split_ifs
  · exact hk
  · have hlen := (Nat.digits_length_le_iff (by omega) val).mpr h
    simp only [List.length_reverse, List.length_map, List.length_take]
    omega

end Numeral

/-! ### The loop -/

/-- The loop puts the digits it reaches in front of the text after them. -/
theorem digitsLoop_spec {base : ℕ} (hb : 2 ≤ base) (hb' : base ≤ 16) (res i val : ℕ)
    (m : ℕ → Char) : ∃ j m', digitsLoop res base i val m = some (j, m') ∧
      j + ((base.digits val).take i).length = i ∧ SameOutside (res + (j + 1)) (res + (i + 1)) m m' ∧
      ∀ t, Holds m (res + (i + 1)) t →
        Holds m' (res + (j + 1)) ((((base.digits val).take i).map digitChar).reverse ++ t) := by
  induction i generalizing val m with
  | zero => exact ⟨0, m, rfl, rfl, .refl _ _ _, fun t ht => by simpa using ht⟩
  | succ i ih =>
    by_cases hval : val = 0
    · subst hval
      exact ⟨i + 1, m, rfl, by simp, .refl _ _ _, fun t ht => by simpa using ht⟩
    · have hlt : val % base < 16 := (Nat.mod_lt val (by omega)).trans_le hb'
      set c := digitChar (val % base) with hc
      obtain ⟨j, m', hloop, hj, hsame, htext⟩ := ih (val / base) (Function.update m (res + (i + 1)) c)
      have hdigits : base.digits val = val % base :: base.digits (val / base) :=
        Nat.digits_def' (by omega) (Nat.pos_of_ne_zero hval)
      refine ⟨j, m', ?_, ?_, ?_, fun t ht => ?_⟩
      · have hmod : (val : ℤ).tmod base = ((val % base : ℕ) : ℤ) := rfl
        have hdiv : (val : ℤ).tdiv base = ((val / base : ℕ) : ℤ) := rfl
        rw [digitsLoop, if_neg (by exact_mod_cast hval), hmod, hdiv, digitAt_natCast hlt]
        exact hloop
      · rw [hdigits, List.take_succ_cons, List.length_cons]
        omega
      · exact (sameOutside_update c (by omega) (by omega)).trans (hsame.mono le_rfl (by omega))
      · have hct : Holds (Function.update m (res + (i + 1)) c) (res + (i + 1)) (c :: t) := by
          refine ⟨digitChar_ne_nul hlt, Function.update_self .., ht.congr fun k hk _ => ?_⟩
          exact Function.update_of_ne (by omega) ..
        rw [hdigits, List.take_succ_cons, List.map_cons, List.reverse_cons, List.append_assoc]
        exact htext _ hct

/-- A negative number gives a negative index, or a digit nought and a negative number to go
on with. So the loop ends only if all the digits it reaches are noughts. -/
theorem isSome_digitsLoop_of_neg {base : ℕ} (hb : 2 ≤ base) (res i : ℕ) {val : ℤ} (m : ℕ → Char)
    (hval : val < 0) : (digitsLoop res base i val m).isSome = true ↔ (base : ℤ) ^ i ∣ val := by
  have hbpos : (0 : ℤ) < base := by omega
  induction i generalizing val m with
  | zero => simp [digitsLoop]
  | succ i ih =>
    rw [digitsLoop, if_neg hval.ne]
    have hdecomp := Int.tmod_add_mul_tdiv val base
    by_cases hmod : val.tmod base = 0
    · rw [hmod, zero_add] at hdecomp
      have hneg : val.tdiv base < 0 := by
        by_contra hge
        have := mul_nonneg hbpos.le (not_lt.mp hge)
        omega
      have hnought : digitAt 0 = some (digitChar 0) := digitAt_natCast (by decide)
      rw [hmod, hnought, Option.bind_some]
      refine (ih _ hneg).trans ?_
      rw [← mul_dvd_mul_iff_left hbpos.ne', hdecomp, ← pow_succ']
    · have hle : 0 ≤ -val.tmod base := by
        rw [← Int.neg_tmod]
        exact Int.tmod_nonneg base (by omega)
      rw [digitAt_of_neg (by omega), Option.bind_none]
      constructor
      · exact fun h => absurd h (by simp)
      · exact fun h => absurd (Int.tmod_eq_zero_of_dvd ((dvd_pow_self _ (by omega)).trans h)) hmod

/-! ### The conversions -/

/-- What a conversion leaves: the text at `q`, in the buffer of `size` characters at `res`
and nothing outside. -/
structure Printed (res size : ℕ) (m : ℕ → Char) (text : List Char) (q : ℕ) (m' : ℕ → Char) :
    Prop where
  holds : Holds m' q text
  le : res ≤ q
  lt : q + text.length < res + size
  same : SameOutside res (res + size) m m'

/-- The text of nought, and the one the loop fills the buffer with. -/
theorem utoa_printed {base : ℕ} (hb : 2 ≤ base) (hb' : base ≤ 16) (val res : ℕ) (m : ℕ → Char) :
    ∃ q m', utoa val m res base = some (q, m') ∧ Printed res 32 m (numeral base val) q m' := by
  unfold utoa numeral
  split_ifs with h0
  · refine ⟨res, _, rfl, ⟨by decide, ?_, ?_⟩, le_rfl, by simp, ?_⟩
    · rw [Function.update_of_ne (by omega), Function.update_self]
    · exact Function.update_self ..
    · exact (sameOutside_update '0' le_rfl (by omega)).trans (sameOutside_update nul (by omega) (by omega))
  · obtain ⟨j, m', hloop, hj, hsame, htext⟩ :=
      digitsLoop_spec hb hb' res 30 val (Function.update m (res + 31) nul)
    refine ⟨res + (j + 1), m', by rw [hloop]; rfl, ?_, by omega, ?_, ?_⟩
    · have hend : Holds (Function.update m (res + 31) nul) (res + (30 + 1)) [] :=
        Function.update_self ..
      simpa using htext [] hend
    · simp only [List.length_reverse, List.length_map]
      omega
    · exact (sameOutside_update nul (by omega) (by omega)).trans (hsame.mono (by omega) (by omega))

theorem itoa_natCast (val : ℕ) (m : ℕ → Char) (res : ℕ) (base : ℤ) :
    itoa val m res base = utoa val m res base := by
  have hneg : ¬ (val : ℤ) < 0 := by omega
  simp only [itoa, utoa, Int.natCast_eq_zero, if_neg hneg]

theorem isSome_itoa_of_neg {base : ℕ} (hb : 2 ≤ base) {val : ℤ} (hval : val < 0) (m : ℕ → Char)
    (res : ℕ) : (itoa val m res base).isSome = true ↔ (base : ℤ) ^ 30 ∣ val := by
  rw [itoa, if_neg hval.ne, Option.isSome_map, isSome_digitsLoop_of_neg hb res 30 _ hval]

theorem ptoa_printed {val : ℕ} (hval : val < 2 ^ 64) (memory : ℕ) (m : ℕ → Char) :
    ∃ m', ptoa val m memory = some (memory, m') ∧
      Printed memory 64 m ('0' :: 'x' :: numeral 16 val) memory m' := by
  obtain ⟨buf, m₁, hutoa, hp⟩ := utoa_printed (by decide : 2 ≤ 16) le_rfl val (memory + 32) m
  have hlen := length_numeral_le_of_lt val (by decide : 2 ≤ 16) (by decide : 0 < 16)
    (hval.trans_le (by decide))
  have hle := hp.le
  obtain ⟨hcopy, hsame⟩ := strcpy_spec hp.holds (by unfold kNeededMemory; omega : _ < kNeededMemory)
    (show _ < memory + 2 ∨ memory + 2 + _ < buf by omega)
  refine ⟨_, by rw [ptoa, show ((16 : ℤ)) = ((16 : ℕ) : ℤ) from rfl, hutoa]; rfl,
    ⟨by decide, ?_, by decide, ?_, ?_⟩, le_rfl, ?_, ?_⟩
  · rw [Function.update_of_ne (by omega), Function.update_self]
  · exact Function.update_self ..
  · exact hcopy.congr fun i h1 h2 => by
      rw [Function.update_of_ne (by omega), Function.update_of_ne (by omega)]
  · simp only [List.length_cons]
    omega
  · exact (hp.same.mono (by omega) (by omega)).trans ((hsame.mono (by omega) (by omega)).trans
      ((sameOutside_update '0' (by omega) (by omega)).trans
        (sameOutside_update 'x' (by omega) (by omega))))

/-- `utoa` shows a number up to multiples of the 30th power of the base, `ptoa` shows every
address, and `itoa` shows what `utoa` shows. It reads outside its table for exactly the
negative numbers, but for the multiples of the 30th power of the base, of whose digits it
sees only noughts. -/
theorem conversions_exact {base : ℕ} (hb : 2 ≤ base) (hb' : base ≤ 16) (val res : ℕ)
    (m : ℕ → Char) :
    (∃ q m' text, utoa val m res base = some (q, m') ∧ Printed res 32 m text q m' ∧
      valueOf base text = val % base ^ 30) ∧
    (val < 2 ^ 64 → ∃ m' text, ptoa val m res = some (res, m') ∧
      Printed res 64 m ('0' :: 'x' :: text) res m' ∧ valueOf 16 text = val) ∧
    itoa val m res base = utoa val m res base ∧
    ∀ v : ℤ, (itoa v m res base).isSome ↔ 0 ≤ v ∨ (base : ℤ) ^ 30 ∣ v := by
  obtain ⟨q, m', hutoa, hp⟩ := utoa_printed hb hb' val res m
  refine ⟨⟨q, m', _, hutoa, hp, valueOf_numeral val hb hb'⟩, fun hval => ?_,
    itoa_natCast val m res base, fun v => ?_⟩
  · obtain ⟨m₂, hptoa, hp₂⟩ := ptoa_printed hval res m
    refine ⟨m₂, _, hptoa, hp₂, ?_⟩
    rw [valueOf_numeral val (by decide) le_rfl, Nat.mod_eq_of_lt (hval.trans (by decide))]
  · by_cases hv0 : 0 ≤ v
    · obtain ⟨n, rfl⟩ := Int.eq_ofNat_of_zero_le hv0
      obtain ⟨q₂, m₂, hutoa₂, -⟩ := utoa_printed hb hb' n res m
      rw [itoa_natCast, hutoa₂]
      simp
    · rw [isSome_itoa_of_neg hb (not_le.mp hv0)]
      exact (or_iff_right hv0).symm

/-- In base 2 the digits of `2 ^ 31 + 1` go past the buffer, and in base 16 not. -/
theorem conversions_exact_two_sixteen :
    (∃ q m' text, utoa (2 ^ 31 + 1) (fun _ => nul) 0 2 = some (q, m') ∧
      Printed 0 32 (fun _ => nul) text q m' ∧ valueOf 2 text = 1) ∧
    (∃ m' text, ptoa (2 ^ 31 + 1) (fun _ => nul) 0 = some (0, m') ∧
      Printed 0 64 (fun _ => nul) ('0' :: 'x' :: text) 0 m' ∧ valueOf 16 text = 2 ^ 31 + 1) :=
  ⟨(conversions_exact (le_refl 2) (by decide) (2 ^ 31 + 1) 0 fun _ => nul).1,
    (conversions_exact (le_refl 2) (by decide) (2 ^ 31 + 1) 0 fun _ => nul).2.1 (by decide)⟩

end KurentoMediaServer.Debug
