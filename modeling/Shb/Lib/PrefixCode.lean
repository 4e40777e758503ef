import Mathlib.Algebra.Ring.Nat
import Mathlib.Data.List.Basic

/-!
# Codes no word of which begins another

A symbol is written as a word of bits; no word begins another, and none is made of ones only, so
that what fills up the last octet with ones cannot be taken for a word. Then **a text is determined
by its octets** (`PrefixCode.encode_injective`), whatever the code is.
-/

namespace Shb.Lib

/-! ## Bits -/

/-- Bits as a number, the most significant first. -/
def valueOf : List Bool → Nat
  | [] => 0
  | b :: bs => b.toNat * 2 ^ bs.length + valueOf bs

theorem valueOf_lt : ∀ bs : List Bool, valueOf bs < 2 ^ bs.length
  | [] => Nat.one_pos
  | b :: bs => by
    have ih := valueOf_lt bs
    rw [valueOf, List.length_cons, Nat.pow_succ]
    cases b with
    | false => simp only [Bool.toNat_false, Nat.zero_mul, Nat.zero_add]; omega
    | true => simp only [Bool.toNat_true, Nat.one_mul]; omega

theorem valueOf_injective : ∀ {xs ys : List Bool}, xs.length = ys.length →
    valueOf xs = valueOf ys → xs = ys
  | [], [], _, _ => rfl
  | x :: xs, y :: ys, hlen, h => by
    have htail : xs.length = ys.length := Nat.succ.inj hlen
    have hx := valueOf_lt xs
    have hy := valueOf_lt ys
    rw [valueOf, valueOf, htail] at h
    rw [htail] at hx
    have hhead : x = y := by
      cases x with
      | false =>
        cases y with
        | false => rfl
        | true => simp only [Bool.toNat_false, Bool.toNat_true] at h; omega
      | true =>
        cases y with
        | false => simp only [Bool.toNat_false, Bool.toNat_true] at h; omega
        | true => rfl
    subst hhead
    have hrest : valueOf xs = valueOf ys := Nat.add_left_cancel h
    rw [valueOf_injective htail hrest]

theorem valueOf_ones : ∀ n : Nat, valueOf (List.replicate n true) = 2 ^ n - 1
  | 0 => rfl
  | n + 1 => by
    rw [List.replicate_succ, valueOf, List.length_replicate, valueOf_ones n, Bool.toNat_true,
      Nat.pow_succ]
    omega

/-- A number as so many bits, the most significant first. -/
def bitsOf (value : Nat) : Nat → List Bool
  | 0 => []
  | n + 1 => value.testBit n :: bitsOf value n

theorem length_bitsOf (value : Nat) : ∀ n : Nat, (bitsOf value n).length = n
  | 0 => rfl
  | n + 1 => by rw [bitsOf, List.length_cons, length_bitsOf]

theorem valueOf_bitsOf (value : Nat) : ∀ n : Nat, valueOf (bitsOf value n) = value % 2 ^ n
  | 0 => by rw [Nat.pow_zero, Nat.mod_one]; rfl
  | n + 1 => by
    rw [bitsOf, valueOf, length_bitsOf, valueOf_bitsOf value n, Nat.toNat_testBit, Nat.mod_pow_succ,
      Nat.add_comm, Nat.mul_comm]

/-- What comes first are the high bits. -/
theorem bitsOf_add (value k : Nat) : ∀ n : Nat,
    bitsOf value (n + k) = bitsOf (value >>> k) n ++ bitsOf value k
  | 0 => by rw [Nat.zero_add]; rfl
  | n + 1 => by
    rw [Nat.add_right_comm, bitsOf, bitsOf, bitsOf_add value k n, Nat.testBit_shiftRight,
      Nat.add_comm k n]
    rfl

/-! ## Words as numbers

A word is a number and its length. Filled up to `width` bits in every way, it is an interval of
numbers; a word that begins another covers it. -/

/-- The word is a number of its length, and no longer than `width`. -/
def Fits (width : Nat) (p : Nat × Nat) : Prop := p.1 < 2 ^ p.2 ∧ p.2 ≤ width

instance (width : Nat) (p : Nat × Nat) : Decidable (Fits width p) :=
  inferInstanceAs (Decidable (_ ∧ _))

/-- All that `p` begins comes before all that `q` does. -/
def Before (width : Nat) (p q : Nat × Nat) : Prop :=
  (p.1 + 1) * 2 ^ (width - p.2) ≤ q.1 * 2 ^ (width - q.2)

instance (width : Nat) (p q : Nat × Nat) : Decidable (Before width p q) :=
  inferInstanceAs (Decidable (_ ≤ _))

theorem Before.trans {width : Nat} {p q r : Nat × Nat} (h : Before width p q)
    (h' : Before width q r) : Before width p r :=
  Nat.le_trans h (Nat.le_trans (Nat.mul_le_mul_right _ (Nat.le_succ q.1)) h')

/-- A word that begins another is not apart from it. -/
theorem covers_bitsOf {width : Nat} {p q : Nat × Nat} (hp : Fits width p) (hq : Fits width q)
    (h : bitsOf p.1 p.2 <+: bitsOf q.1 q.2) : ¬ Before width p q ∧ ¬ Before width q p := by
  have hle : p.2 ≤ q.2 := by
    have hlen := h.length_le
    rwa [length_bitsOf, length_bitsOf] at hlen
  have hsplit := bitsOf_add q.1 (q.2 - p.2) p.2
  rw [Nat.add_sub_cancel' hle] at hsplit
  obtain ⟨rest, hrest⟩ := h
  have hsame : bitsOf p.1 p.2 = bitsOf (q.1 >>> (q.2 - p.2)) p.2 := by
    refine (List.append_inj (hrest.trans hsplit) ?_).1
    rw [length_bitsOf, length_bitsOf]
  have hshift : q.1 >>> (q.2 - p.2) < 2 ^ p.2 := by
    rw [Nat.shiftRight_eq_div_pow, Nat.div_lt_iff_lt_mul (Nat.two_pow_pos _), ← Nat.pow_add,
      Nat.add_sub_cancel' hle]
    exact hq.1
  have hvalue : p.1 = q.1 / 2 ^ (q.2 - p.2) := by
    have h := congrArg valueOf hsame
    rwa [valueOf_bitsOf, valueOf_bitsOf, Nat.mod_eq_of_lt hp.1, Nat.mod_eq_of_lt hshift,
      Nat.shiftRight_eq_div_pow] at h
  -- both in `width` bits
  have hwidth : 2 ^ (width - p.2) = 2 ^ (q.2 - p.2) * 2 ^ (width - q.2) := by
    rw [← Nat.pow_add]
    congr 1
    have := hq.2
    omega
  have hlow : p.1 * 2 ^ (q.2 - p.2) ≤ q.1 := hvalue ▸ Nat.div_mul_le_self _ _
  have hhigh : q.1 < (p.1 + 1) * 2 ^ (q.2 - p.2) := by
    rw [hvalue]
    exact Nat.lt_mul_of_div_lt (Nat.lt_succ_self _) (Nat.two_pow_pos _)
  have hpos := Nat.two_pow_pos (width - q.2)
  unfold Before
  rw [hwidth, ← Nat.mul_assoc, ← Nat.mul_assoc]
  constructor
  · intro hbefore
    exact Nat.lt_irrefl _ (Nat.lt_of_le_of_lt (Nat.le_of_mul_le_mul_right hbefore hpos) hhigh)
  · intro hbefore
    have hsucc := Nat.le_trans (Nat.le_of_mul_le_mul_right hbefore hpos) hlow
    exact Nat.lt_irrefl _ hsucc

theorem ones_bitsOf {p : Nat × Nat} {n : Nat} (h : bitsOf p.1 p.2 <+: List.replicate n true) :
    p.1 % 2 ^ p.2 = 2 ^ p.2 - 1 := by
  obtain ⟨rest, hrest⟩ := h
  obtain ⟨-, hones, -⟩ := List.append_eq_replicate_iff.mp hrest
  rw [length_bitsOf] at hones
  have hvalue := congrArg valueOf hones
  rwa [valueOf_bitsOf, valueOf_ones] at hvalue

/-! ## Octets -/

/-- So many octets of bits. -/
def octets : Nat → List Bool → List UInt8
  | 0, _ => []
  | n + 1, bs => UInt8.ofNat (valueOf (bs.take 8)) :: octets n (bs.drop 8)

theorem length_octets : ∀ (n : Nat) (bs : List Bool), (octets n bs).length = n
  | 0, _ => rfl
  | n + 1, bs => by rw [octets, List.length_cons, length_octets]

/-- Whole octets determine their bits. -/
theorem octets_injective : ∀ {n : Nat} {xs ys : List Bool}, xs.length = 8 * n →
    ys.length = 8 * n → octets n xs = octets n ys → xs = ys
  | 0, xs, ys, hx, hy, _ => by
    rw [List.eq_nil_of_length_eq_zero hx, List.eq_nil_of_length_eq_zero hy]
  | n + 1, xs, ys, hx, hy, h => by
    have hxs : (xs.take 8).length = 8 := by rw [List.length_take]; omega
    have hys : (ys.take 8).length = 8 := by rw [List.length_take]; omega
    have hfits : ∀ {bs : List Bool}, bs.length = 8 →
        (UInt8.ofNat (valueOf bs)).toNat = valueOf bs := by
      intro bs hbs
      rw [UInt8.toNat_ofNat', Nat.mod_eq_of_lt (hbs ▸ valueOf_lt bs)]
    simp only [octets, List.cons.injEq] at h
    have hfirst : valueOf (xs.take 8) = valueOf (ys.take 8) := by
      have hnat := congrArg UInt8.toNat h.1
      rwa [hfits hxs, hfits hys] at hnat
    have htake := valueOf_injective (hxs.trans hys.symm) hfirst
    have hdrop := octets_injective (by rw [List.length_drop]; omega)
      (by rw [List.length_drop]; omega) h.2
    rw [← List.take_append_drop 8 xs, ← List.take_append_drop 8 ys, htake, hdrop]

variable (bs : List Bool)

/-- Bits filled up with ones to whole octets. -/
def filled : List Bool := bs ++ List.replicate ((8 - bs.length % 8) % 8) true

theorem length_filled : (filled bs).length = 8 * ((filled bs).length / 8) := by
  rw [filled, List.length_append, List.length_replicate]
  omega

def pack : List UInt8 := octets ((filled bs).length / 8) (filled bs)

theorem filled_eq_of_pack {xs ys : List Bool} (h : pack xs = pack ys) : filled xs = filled ys := by
  have hlen : (filled xs).length / 8 = (filled ys).length / 8 := by
    rw [← length_octets ((filled xs).length / 8) (filled xs),
      ← length_octets ((filled ys).length / 8) (filled ys)]
    exact congrArg List.length h
  unfold pack at h
  rw [← hlen] at h
  refine octets_injective (length_filled xs) ?_ h
  rw [hlen]
  exact length_filled ys

/-! ## Codes -/

/-- Words of bits, one for each symbol. -/
structure PrefixCode (α : Type) where
  word : α → List Bool
  /-- No word begins another. -/
  free {a b : α} : word a <+: word b → a = b
  /-- None begins a row of ones. -/
  filling {a : α} {n : Nat} : ¬ word a <+: List.replicate n true

namespace PrefixCode

variable {α : Type} (code : PrefixCode α)

/-- The words of a text, filled up with ones to whole octets. -/
def encode (s : List α) : List UInt8 := pack (s.flatMap code.word)

/-- One word off the front at a time: two words that begin the same bits are the same. -/
theorem words_injective {i j : Nat} : ∀ {s t : List α},
    s.flatMap code.word ++ List.replicate i true = t.flatMap code.word ++ List.replicate j true →
      s = t
  | [], [], _ => rfl
  | [], b :: t, h => by
    rw [List.flatMap_cons, List.append_assoc] at h
    exact absurd ⟨_, h.symm⟩ (code.filling (a := b) (n := i))
  | a :: s, [], h => by
    rw [List.flatMap_cons, List.append_assoc] at h
    exact absurd ⟨_, h⟩ (code.filling (a := a) (n := j))
  | a :: s, b :: t, h => by
    rw [List.flatMap_cons, List.flatMap_cons, List.append_assoc, List.append_assoc] at h
    have hab : a = b := by
      rcases List.prefix_or_prefix_of_prefix (List.prefix_append _ _)
          (h ▸ List.prefix_append (code.word b) _) with hp | hp
      · exact code.free hp
      · exact (code.free hp).symm
    subst hab
    rw [words_injective (List.append_cancel_left h)]

/-- **A text is determined by its octets.** -/
theorem encode_injective {s t : List α} (h : code.encode s = code.encode t) : s = t :=
  code.words_injective (filled_eq_of_pack h)

end PrefixCode

end Shb.Lib
