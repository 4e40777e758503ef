import Mathlib.Data.List.Basic
import Mathlib.Data.List.TakeWhile
import Shb.Http1.Grammar

/-!
# Reading header lines

What the helpers of `scan_head` make of a field that keeps the grammar. The scanner folds case
by setting a bit, which is the folding of ASCII on the bytes that a name can have; it
recognises a field by a prefix of the line, which is the name as a whole because no byte of a
name folds to a colon; and it looks for quotes only inside `Transfer-Encoding`, where the
grammar puts them around parameter values.
-/

namespace Shb.Http1

open Shb.Lib

/-- A property of bytes is checked on the 256 of them. -/
theorem forall_byte {p : UInt8 → Prop} (h : ∀ n < 256, p (UInt8.ofNat n)) (b : UInt8) : p b := by
  have hb := h b.toNat b.toNat_lt
  rwa [UInt8.ofNat_toNat] at hb

/-- The bytes the names of the scanner are made of. -/
def isNameByte (b : UInt8) : Bool := (97 ≤ b && b ≤ 122) || b = 45

/-- On the bytes of a token, setting the bit folds case, as far as names go. -/
theorem fold_tchar {b l : UInt8} (hb : isTchar b = true) (hl : isNameByte l = true) :
    (b ||| 0x20 = l) ↔ (lower b = l) := by
  have hall : ∀ b : UInt8, isTchar b = true →
      lower b = b ||| 0x20 ∨ isNameByte (lower b) = false ∧ isNameByte (b ||| 0x20) = false :=
    forall_byte (by decide +kernel)
  rcases hall b hb with heq | ⟨hlow, hset⟩
  · rw [heq]
  · constructor
    · rintro rfl
      rw [hl] at hset
      cases hset
    · rintro rfl
      rw [hl] at hlow
      cases hlow

theorem tchar_ne : ∀ {b : UInt8}, isTchar b = true →
    b ≠ lf ∧ b ≠ 34 ∧ b ≠ 44 ∧ b ||| 0x20 ≠ 58 ∧ isOws b = false :=
  @(forall_byte (by decide +kernel))

theorem ows_ne : ∀ {b : UInt8}, isOws b = true → b ≠ lf ∧ b ≠ 34 ∧ b ≠ 44 ∧ b ≠ 59 :=
  @(forall_byte (by decide +kernel))

/-! ## Names -/

theorem ciPrefix_cons (a b : UInt8) (line name : Bytes) :
    ciPrefix (a :: line) (b :: name) = (decide (a ||| 0x20 = b) && ciPrefix line name) := by
  simp only [ciPrefix, List.length_cons, List.take_succ_cons, List.zip_cons_cons, List.all_cons,
    Nat.add_le_add_iff_right]
  exact Bool.and_left_comm ..

theorem ciEq_cons (a b : UInt8) (token name : Bytes) :
    ciEq (a :: token) (b :: name) = (decide (a ||| 0x20 = b) && ciEq token name) := by
  simp only [ciEq, List.length_cons, List.zip_cons_cons, List.all_cons, Nat.add_right_cancel_iff]
  exact Bool.and_left_comm ..

variable {target w : Bytes}

/-- The prefix of a line is the name as a whole. -/
theorem ciPrefix_named {name : Bytes} (hname : ∀ b ∈ name, isTchar b = true)
    (htarget : ∀ l ∈ target, isNameByte l = true) (value : Bytes) :
    ciPrefix (name ++ 58 :: value) (target ++ [58]) = decide (name.map lower = target) := by
  induction name generalizing target with
  | nil =>
    cases target with
    | nil => rfl
    | cons l target =>
      have hl : (58 : UInt8) ||| 0x20 ≠ l := by
        rintro rfl
        exact absurd (htarget _ List.mem_cons_self) (by decide)
      rw [List.nil_append, List.cons_append, ciPrefix_cons, decide_eq_false hl, Bool.false_and]
      rfl
  | cons b name ih =>
    have hb := hname b List.mem_cons_self
    cases target with
    | nil =>
      rw [List.cons_append, List.nil_append, ciPrefix_cons, decide_eq_false (tchar_ne hb).2.2.2.1,
        Bool.false_and]
      rfl
    | cons l target =>
      rw [List.cons_append, List.cons_append, ciPrefix_cons,
        ih (fun b hb => hname b (List.mem_cons_of_mem _ hb))
          fun l hl => htarget l (List.mem_cons_of_mem _ hl)]
      simp only [fold_tchar hb (htarget l List.mem_cons_self), List.map_cons, List.cons.injEq,
        Bool.decide_and]

theorem ciEq_token {token : Bytes} (htoken : ∀ b ∈ token, isTchar b = true)
    (htarget : ∀ l ∈ target, isNameByte l = true) :
    ciEq token target = decide (token.map lower = target) := by
  induction token generalizing target with
  | nil =>
    cases target with
    | nil => rfl
    | cons l target => rfl
  | cons b token ih =>
    cases target with
    | nil => rfl
    | cons l target =>
      rw [ciEq_cons, ih (fun b hb => htoken b (List.mem_cons_of_mem _ hb))
          fun l hl => htarget l (List.mem_cons_of_mem _ hl)]
      simp only [fold_tchar (htoken b List.mem_cons_self) (htarget l List.mem_cons_self),
        List.map_cons, List.cons.injEq, Bool.decide_and]

variable (t : Token)

theorem Token.is_eq (htarget : ∀ l ∈ target, isNameByte l = true) :
    ciEq t.bytes target = t.is target :=
  ciEq_token t.tchars htarget

/-! ## White space -/

section

variable (hw : ∀ b ∈ w, isOws b = true)
include hw

theorem dropWhile_blanks (bs : Bytes) : (w ++ bs).dropWhile isOws = bs.dropWhile isOws :=
  List.dropWhile_append_of_pos hw

theorem trimOws_front (bs : Bytes) : trimOws (w ++ bs) = trimOws bs := by
  rw [trimOws, dropWhile_blanks hw, trimOws]

theorem trimOws_blanks : trimOws w = [] := by
  have h := trimOws_front hw []
  rw [List.append_nil] at h
  exact h.trans rfl

theorem trimOws_back (bs : Bytes) : trimOws (bs ++ w) = trimOws bs := by
  induction bs with
  | nil => exact (trimOws_blanks hw).trans rfl
  | cons b bs ih =>
    cases hb : isOws b with
    | true =>
      have hfront := fun l => trimOws_front (w := [b]) (fun _
        h => by rw [List.mem_singleton.mp h, hb]) l
      exact (hfront (bs ++ w)).trans (ih.trans (hfront bs).symm)
    | false =>
      have hdrop : ∀ l, (b :: l).dropWhile isOws = b :: l := fun l => by
        rw [List.dropWhile_cons_of_neg (by rw [hb]; exact Bool.false_ne_true)]
      rw [trimOws, trimOws, List.cons_append, hdrop, hdrop, ← List.cons_append, List.reverse_append,
        dropWhile_blanks fun b h => hw b (List.mem_reverse.mp h)]

end

/-- Nothing is trimmed off what begins and ends with something else. -/
theorem trimOws_eq_self {bs : Bytes} (hfirst : ∀ b ∈ bs.head?, isOws b = false)
    (hlast : ∀ b ∈ bs.getLast?, isOws b = false) : trimOws bs = bs := by
  have hkeep : ∀ l : Bytes, (∀ b ∈ l.head?, isOws b = false) → l.dropWhile isOws = l := by
    intro l hl
    cases l with
    | nil => rfl
    | cons b l =>
      rw [List.dropWhile_cons_of_neg (by rw [hl b rfl]; exact Bool.false_ne_true)]
  rw [trimOws, hkeep bs hfirst, hkeep bs.reverse (by rwa [List.head?_reverse]),
    List.reverse_reverse]

theorem trimOws_around (before after : Ows) {bs : Bytes} (hfirst : ∀ b ∈ bs.head?, isOws b = false)
    (hlast : ∀ b ∈ bs.getLast?, isOws b = false) :
    trimOws (before.bytes ++ (bs ++ after.bytes)) = bs := by
  rw [trimOws_front before.blank, trimOws_back after.blank, trimOws_eq_self hfirst hlast]

theorem exists_trimOws (bs : Bytes) : ∃ front back : Ows,
    bs = front.bytes ++ (trimOws bs ++ back.bytes) := by
  have htake : ∀ l : Bytes, ∀ b ∈ l.takeWhile isOws, isOws b = true :=
    fun l b hb => List.mem_takeWhile_imp hb
  refine ⟨⟨bs.takeWhile isOws, htake bs⟩,
    ⟨((bs.dropWhile isOws).reverse.takeWhile isOws).reverse,
      fun b hb => htake _ b (List.mem_reverse.mp hb)⟩, ?_⟩
  rw [trimOws, ← List.reverse_append, List.takeWhile_append_dropWhile, List.reverse_reverse,
    List.takeWhile_append_dropWhile]

theorem Token.trim_first (rest : Bytes) : ∀ b ∈ (t.bytes ++ rest).head?, isOws b = false := by
  intro b hb
  cases hbytes : t.bytes with
  | nil => exact absurd hbytes t.nonempty
  | cons a bytes =>
    rw [hbytes] at hb
    cases hb
    exact (tchar_ne (t.tchars b (hbytes ▸ List.mem_cons_self))).2.2.2.2

theorem Token.trim_last (front : Bytes) : ∀ b ∈ (front ++ t.bytes).getLast?, isOws b = false := by
  intro b hb
  rw [List.getLast?_append_of_ne_nil _ t.nonempty] at hb
  exact (tchar_ne (t.tchars b (List.mem_of_mem_getLast? hb))).2.2.2.2

/-! ## Transfer codings -/

theorem coding_front (hw : ∀ b ∈ w, isOws b = true) (last : Option Bool) (token : Bytes) :
    coding last (w ++ token) = coding last token := by
  rw [coding, trimOws_front hw, coding]

theorem coding_back (hw : ∀ b ∈ w, isOws b = true) (last : Option Bool) (token : Bytes) :
    coding last (token ++ w) = coding last token := by
  rw [coding, trimOws_back hw, coding]

theorem codings_front (hw : ∀ b ∈ w, isOws b = true) (v : Bytes) :
    ∀ (last : Option Bool) (token : Bytes) (quoted escaped : Bool),
      codings last (w ++ token) quoted escaped v = codings last token quoted escaped v := by
  induction v with
  | nil =>
    intro last token quoted escaped
    rw [codings, codings, coding_front hw]
  | cons b v ih =>
    intro last token quoted escaped
    simp [codings, ih, coding_front hw]

theorem codings_back (hw : ∀ b ∈ w, isOws b = true) (v : Bytes) :
    ∀ (last : Option Bool) (token : Bytes) (quoted escaped : Bool),
      codings last token quoted escaped (v ++ w) = codings last token quoted escaped v := by
  induction v with
  | nil =>
    induction w with
    | nil =>
      intro last token quoted escaped
      rfl
    | cons b w ih =>
      intro last token quoted escaped
      have hblank := hw b List.mem_cons_self
      obtain ⟨-, hquote, hcomma, -⟩ := ows_ne hblank
      have hslash : b ≠ 92 := by
        rintro rfl
        exact absurd hblank (by decide)
      have hrest := fun token escaped =>
        ih (fun b hb => hw b (List.mem_cons_of_mem _ hb)) last token quoted escaped
      rw [List.nil_append] at hrest ⊢
      simp only [codings, hquote, hcomma, hslash, decide_false, Bool.and_false, if_false, hrest,
        coding_back (w := [b]) fun _ h => by rw [List.mem_singleton.mp h, hblank]]
      split <;> rfl
  | cons b v ih =>
    intro last token quoted escaped
    simp [codings, ih]

/-- The bytes of an element, quotes closed and no comma outside them, are only collected. -/
def Collected (bytes : Bytes) : Prop :=
  ∀ (last : Option Bool) (token rest : Bytes),
    codings last token false false (bytes ++ rest) = codings last (token ++ bytes) false false rest

theorem Collected.append {xs ys : Bytes} (hx : Collected xs) (hy : Collected ys) :
    Collected (xs ++ ys) := by
  intro last token rest
  rw [List.append_assoc, hx, hy, List.append_assoc]

theorem Collected.nil : Collected [] := by
  intro last token rest
  rw [List.nil_append, List.append_nil]

theorem Collected.flatMap {α : Type} {f : α → Bytes} {l : List α} (h : ∀ a ∈ l, Collected (f a)) :
    Collected (l.flatMap f) := by
  induction l with
  | nil => exact Collected.nil
  | cons a l ih =>
    exact (h a List.mem_cons_self).append (ih fun a ha => h a (List.mem_cons_of_mem _ ha))

theorem collected_plain {bytes : Bytes} (h : ∀ b ∈ bytes, b ≠ 34 ∧ b ≠ 44) : Collected bytes := by
  induction bytes with
  | nil => exact Collected.nil
  | cons b bytes ih =>
    intro last token rest
    obtain ⟨hquote, hcomma⟩ := h b List.mem_cons_self
    have hrest := ih (fun b hb => h b (List.mem_cons_of_mem _ hb)) last (token ++ [b]) rest
    rw [List.append_assoc, List.singleton_append] at hrest
    rw [← hrest, List.cons_append]
    simp [codings, hquote, hcomma]

/-- Inside quotes everything is, up to the closing one. -/
theorem collected_quoted (bytes : List QuotedByte) :
    Collected (ParamValue.quoted bytes).encode := by
  have hinside : ∀ (bytes : List QuotedByte) (last : Option Bool) (token rest : Bytes),
      codings last token true false (bytes.flatMap QuotedByte.encode ++ rest) =
        codings last (token ++ bytes.flatMap QuotedByte.encode) true false rest := by
    intro bytes
    induction bytes with
    | nil =>
      intro last token rest
      rw [List.flatMap_nil, List.nil_append, List.append_nil]
    | cons q bytes ih =>
      intro last token rest
      rw [List.flatMap_cons, List.append_assoc, ← List.append_assoc token]
      cases q with
      | text b plain =>
        rw [← ih]
        simp [QuotedByte.encode, codings, plain.1, plain.2.1]
      | pair b plain =>
        rw [← ih]
        simp [QuotedByte.encode, codings]
  intro last token rest
  have hopen : ∀ rest, codings last token false false (34 :: rest) =
      codings last (token ++ [34]) true false rest := fun rest => by simp [codings]
  have hclose : ∀ token, codings last token true false (34 :: rest) =
      codings last (token ++ [34]) false false rest := fun token => by simp [codings]
  simp only [ParamValue.encode, List.append_assoc, List.cons_append, List.nil_append]
  rw [hopen, hinside, hclose]
  simp

theorem Ows.collected (w : Ows) : Collected w.bytes :=
  collected_plain fun b hb => ⟨(ows_ne (w.blank b hb)).2.1, (ows_ne (w.blank b hb)).2.2.1⟩

theorem Token.collected : Collected t.bytes :=
  collected_plain fun b hb => ⟨(tchar_ne (t.tchars b hb)).2.1, (tchar_ne (t.tchars b hb)).2.2.1⟩

theorem Param.collected (p : Param) : Collected p.encode := by
  have hvalue : Collected p.value.encode := by
    cases p.value with
    | token t => exact t.collected
    | quoted bytes => exact collected_quoted bytes
  have hbyte : ∀ {b : UInt8}, b ≠ 34 ∧ b ≠ 44 → Collected [b] := fun h =>
    collected_plain fun _ hb => by rwa [List.mem_singleton.mp hb]
  exact ((((((p.before.collected.append (hbyte (by decide))).append p.after.collected).append
    p.name.collected).append p.left.collected).append (hbyte (by decide))).append
    p.right.collected).append hvalue

theorem Coding.collected (c : Coding) : Collected c.encode :=
  c.name.collected.append (Collected.flatMap fun p _ => p.collected)

theorem Coding.trim_last (c : Coding) : ∀ b ∈ c.encode.getLast?, isOws b = false := by
  unfold Coding.encode
  rcases List.eq_nil_or_concat c.params with hnil | ⟨ps, p, hps⟩
  · rw [hnil, List.flatMap_nil, List.append_nil]
    exact c.name.trim_last []
  · rw [hps, List.concat_eq_append, List.flatMap_append, List.flatMap_singleton, Param.encode,
      ← List.append_assoc, ← List.append_assoc]
    cases p.value with
    | token t => exact t.trim_last _
    | quoted bytes =>
      intro b hb
      rw [ParamValue.encode, ← List.append_assoc, List.getLast?_concat] at hb
      cases hb
      rfl

theorem ciEq_nameByte {token name : Bytes} (hname : ∀ l ∈ name, isNameByte l = true)
    (h : ciEq token name = true) : ∀ b ∈ token, isNameByte (b ||| 0x20) = true := by
  induction token generalizing name with
  | nil =>
    intro b hb
    exact absurd hb List.not_mem_nil
  | cons a token ih =>
    cases name with
    | nil => cases h
    | cons l name =>
      rw [ciEq_cons, Bool.and_eq_true, decide_eq_true_eq] at h
      intro b hb
      rcases List.mem_cons.mp hb with rfl | hb
      · rw [h.1]
        exact hname l List.mem_cons_self
      · exact ih (fun l hl => hname l (List.mem_cons_of_mem _ hl)) h.2 b hb

theorem nameByte_chunked : ∀ l ∈ chunked, isNameByte l = true :=
  List.all_eq_true.mp rfl

/-- A coding is the chunked one if that is all there is of it. -/
theorem Coding.isChunked_eq (c : Coding) : ciEq c.encode chunked = c.isChunked := by
  unfold Coding.encode isChunked
  cases hps : c.params with
  | nil => rw [List.flatMap_nil, List.append_nil, Token.is_eq _ nameByte_chunked, List.isEmpty_nil,
      Bool.and_true]
  | cons p ps =>
    rw [List.isEmpty_cons, Bool.and_false, Bool.eq_false_iff]
    intro h
    have hsemi : (59 : UInt8) ∈ c.name.bytes ++ (p :: ps).flatMap Param.encode := by
      simp [Param.encode]
    exact absurd (ciEq_nameByte nameByte_chunked h 59 hsemi) (by decide)

theorem coding_element (last : Option Bool) (e : Element Coding) :
    coding last (e.encode Coding.encode) = (e.item.map Coding.isChunked).or last := by
  unfold Element.encode coding
  cases e.item with
  | none =>
    have htrim : trimOws (e.before.bytes ++ ([] ++ e.after.bytes)) = [] :=
      trimOws_around _ _ (fun _ h => by cases h) fun _ h => by cases h
    rw [Option.elim_none, htrim]
    rfl
  | some c =>
    have htrim : trimOws (e.before.bytes ++ (c.encode ++ e.after.bytes)) = c.encode :=
      trimOws_around _ _ (c.name.trim_first _) c.trim_last
    have hne : c.encode.isEmpty = false := by
      simp [Coding.encode, c.name.nonempty]
    simp [htrim, hne, c.isChunked_eq]

theorem Element.collected {α : Type} {f : α → Bytes} (hf : ∀ a, Collected (f a)) (e : Element α) :
    Collected (e.encode f) := by
  refine e.before.collected.append (Collected.append ?_ e.after.collected)
  cases e.item with
  | none => exact Collected.nil
  | some a => exact hf a

/-- The last coding of a list is that of the elements behind the first, if they have one. -/
theorem last_coding_cons (e : Element Coding) (es : List (Element Coding)) (last : Option Bool) :
    (((e :: es).filterMap Element.item).getLast?.map Coding.isChunked).or last =
      ((es.filterMap Element.item).getLast?.map Coding.isChunked).or
        ((e.item.map Coding.isChunked).or last) := by
  cases he : e.item with
  | none =>
    rw [List.filterMap_cons_none he]
    rfl
  | some c =>
    rw [List.filterMap_cons_some he, List.getLast?_cons]
    cases (es.filterMap Element.item).getLast? <;> rfl

/-- The list as a whole: its last coding decides, if it has one. -/
theorem codings_list (es : List (Element Coding)) : ∀ last : Option Bool,
    codings last [] false false (encodeList Coding.encode es) =
      .ok (((es.filterMap Element.item).getLast?.map Coding.isChunked).or last) := by
  have hone := fun (last : Option Bool) (e : Element Coding) (rest : Bytes) =>
    e.collected Coding.collected last [] rest
  induction es with
  | nil =>
    intro last
    rfl
  | cons e es ih =>
    intro last
    cases es with
    | nil =>
      have hend := hone last e []
      rw [List.append_nil, List.nil_append] at hend
      simp only [encodeList, List.map_cons, List.map_nil, List.intercalate_singleton]
      rw [hend, last_coding_cons, List.filterMap_nil]
      simp only [codings, coding_element]
      rfl
    | cons e' es =>
      have hcomma : encodeList Coding.encode (e :: e' :: es) =
          e.encode Coding.encode ++ 44 :: encodeList Coding.encode (e' :: es) := by
        simp [encodeList]
      have hnext := ih (coding last (e.encode Coding.encode))
      rw [hcomma, hone, List.nil_append, last_coding_cons, ← coding_element, ← hnext]
      simp [codings]

/-- The shortcut for a lone `chunked` answers what the loop would, and so does trimming the
value first. -/
theorem finalCoding_eq (value : Bytes) : finalCoding value = codings none [] false false value := by
  have htrim : codings none [] false false value = codings none [] false false (trimOws value) := by
    obtain ⟨front, back, hvalue⟩ := exists_trimOws value
    have hfront := codings_front front.blank (trimOws value) none [] false false
    calc codings none [] false false value
        = codings none [] false false (front.bytes ++ (trimOws value ++ back.bytes)) := by
          rw [← hvalue]
      _ = codings none front.bytes false false (trimOws value ++ back.bytes) := front.collected ..
      _ = codings none front.bytes false false (trimOws value) := codings_back back.blank ..
      _ = codings none [] false false (trimOws value) := by rw [← hfront, List.append_nil]
  rw [htrim]
  unfold finalCoding
  simp only
  split
  · rename_i hci
    have hbyte : ∀ {b : UInt8}, isNameByte (b ||| 0x20) = true → (b ≠ 34 ∧ b ≠ 44) ∧
      isOws b = false :=
      @(forall_byte (by decide +kernel))
    have hbytes := fun b hb => hbyte (ciEq_nameByte nameByte_chunked hci b hb)
    have hend := collected_plain (fun b hb => (hbytes b hb).1) none [] []
    rw [List.append_nil, List.nil_append] at hend
    have hself : trimOws (trimOws value) = trimOws value :=
      trimOws_eq_self (fun b hb => (hbytes b (List.mem_of_mem_head? hb)).2)
        fun b hb => (hbytes b (List.mem_of_mem_getLast? hb)).2
    have hne : (trimOws value).isEmpty = false := by
      rw [List.isEmpty_eq_false_iff]
      intro hnil
      rw [hnil] at hci
      cases hci
    rw [hend]
    simp [codings, coding, hself, hne, hci]
  · rfl

/-! ## Connection options -/

/-- A head with the options of a `Connection` field. -/
def Head.withOptions (h : Head) (ts : List Token) : Head :=
  { h with
    close := h.close || ts.any (·.is closeOption)
    keepAliveToken := h.keepAliveToken || ts.any (·.is keepAliveOption) }

theorem nameByte_close : ∀ l ∈ closeOption, isNameByte l = true :=
  List.all_eq_true.mp rfl

theorem nameByte_keepAlive : ∀ l ∈ keepAliveOption, isNameByte l = true :=
  List.all_eq_true.mp rfl

theorem connectionToken_element (h : Head) (e : Element Token) :
    h.connectionToken (e.encode Token.bytes) = h.withOptions e.item.toList := by
  unfold Head.connectionToken Element.encode
  cases e.item with
  | none =>
    have htrim : trimOws (e.before.bytes ++ ([] ++ e.after.bytes)) = [] :=
      trimOws_around _ _ (fun _ h => by cases h) fun _ h => by cases h
    rw [Option.elim_none, htrim]
    simp [Head.withOptions, ciEq, ascii]
  | some t =>
    have htrim : trimOws (e.before.bytes ++ (t.bytes ++ e.after.bytes)) = t.bytes := by
      have hfirst := t.trim_first []
      rw [List.append_nil] at hfirst
      exact trimOws_around _ _ hfirst (t.trim_last [])
    have hclose := t.is_eq nameByte_close
    have hkeep := t.is_eq nameByte_keepAlive
    simp only [Option.elim_some, htrim, Option.toList_some, Head.withOptions,
      List.any_cons, List.any_nil, Bool.or_false]
    rw [show ascii ['c', 'l', 'o', 's', 'e'] = closeOption from rfl,
      show ascii ['k', 'e', 'e', 'p', '-', 'a', 'l', 'i', 'v', 'e'] = keepAliveOption from rfl,
        hclose, hkeep]
    by_cases hc : t.is closeOption = true
    · have hk : t.is keepAliveOption = false := by
        unfold Token.is at hc ⊢
        rw [decide_eq_true_eq] at hc
        rw [hc]
        decide
      simp [hc, hk]
    · rw [Bool.not_eq_true] at hc
      cases hk : t.is keepAliveOption <;> simp [hc]

theorem withOptions_append (h : Head) (xs ys : List Token) :
    (h.withOptions xs).withOptions ys = h.withOptions (xs ++ ys) := by
  simp [Head.withOptions, Bool.or_assoc]

theorem foldl_connectionToken (es : List (Element Token)) : ∀ h : Head,
    (es.map (Element.encode Token.bytes)).foldl Head.connectionToken h =
      h.withOptions (es.filterMap Element.item) := by
  induction es with
  | nil =>
    intro h
    simp [Head.withOptions]
  | cons e es ih =>
    intro h
    rw [List.map_cons, List.foldl_cons, ih, connectionToken_element, withOptions_append]
    cases he : e.item with
    | none =>
      rw [List.filterMap_cons_none he]
      rfl
    | some t =>
      rw [List.filterMap_cons_some he]
      rfl

/-- The options of a field, split at its commas. -/
theorem connection_list (h : Head) (es : List (Element Token)) :
    ((encodeList Token.bytes es).splitOn 44).foldl Head.connectionToken h =
      h.withOptions (es.filterMap Element.item) := by
  cases es with
  | nil =>
    simp [encodeList, Head.connectionToken, Head.withOptions, trimOws, ciEq, ascii]
  | cons e es =>
    have hcomma : ∀ l ∈ (e :: es).map (Element.encode Token.bytes), (44 : UInt8) ∉ l := by
      intro l hl hmem
      obtain ⟨e', -, rfl⟩ := List.mem_map.mp hl
      rcases List.mem_append.mp hmem with hb | hb
      · exact (ows_ne (e'.before.blank 44 hb)).2.2.1 rfl
      · rcases List.mem_append.mp hb with hb | hb
        · cases hi : e'.item with
          | none =>
            rw [hi] at hb
            exact absurd hb List.not_mem_nil
          | some t =>
            rw [hi] at hb
            exact (tchar_ne (t.tchars 44 hb)).2.2.1 rfl
        · exact (ows_ne (e'.after.blank 44 hb)).2.2.1 rfl
    rw [encodeList, List.splitOn_intercalate 44 hcomma (by simp), foldl_connectionToken]

/-! ## Numbers -/

variable (ds : List (Fin 10))

theorem le_decimalValue : ∀ n, n ≤ decimalValue n ds := by
  induction ds with
  | nil => exact fun n => Nat.le_refl n
  | cons d ds ih =>
    intro n
    have := ih (n * 10 + d.val)
    simp only [decimalValue, List.foldl_cons] at this ⊢
    omega

theorem encode_digit : ∀ d : Fin 10, isAsciiDigit (UInt8.ofNat (48 + d.val)) = true ∧
    digit (UInt8.ofNat (48 + d.val)) = d.val := by
  decide

/-- The checked arithmetic goes through on a number that fits, and on no other. -/
theorem decimal_eq : ∀ n < 2 ^ 64, decimal n (encodeDecimal ds) =
    if decimalValue n ds < 2 ^ 64 then .ok (decimalValue n ds)
      else .error .contentLengthOverflow := by
  induction ds with
  | nil =>
    intro n hn
    exact (if_pos hn).symm
  | cons d ds ih =>
    intro n hn
    obtain ⟨hdigit, hvalue⟩ := encode_digit d
    have hle := le_decimalValue ds (n * 10 + d.val)
    have hstep : decimalValue n (d :: ds) = decimalValue (n * 10 + d.val) ds := rfl
    rw [encodeDecimal, List.map_cons, decimal, hdigit, if_neg (by simp), hvalue, hstep,
      ← encodeDecimal]
    by_cases hnext : n * 10 + d.val < 2 ^ 64
    · have hmul : checkedMul n 10 = some (n * 10) := if_pos (by omega)
      have hadd : checkedAdd (n * 10) d.val = some (n * 10 + d.val) := if_pos hnext
      simp only [hmul, Option.bind_some, hadd]
      exact ih _ hnext
    · -- the product or the sum is past the word, and so is the whole number
      rw [if_neg (by omega)]
      by_cases hten : n * 10 < 2 ^ 64
      · have hmul : checkedMul n 10 = some (n * 10) := if_pos hten
        have hadd : checkedAdd (n * 10) d.val = none := if_neg hnext
        simp [hmul, hadd]
      · have hmul : checkedMul n 10 = none := if_neg hten
        simp [hmul]

theorem encodeDecimal_ne : ∀ b ∈ encodeDecimal ds, isOws b = false ∧ b ≠ lf := by
  intro b hb
  have hall : ∀ d : Fin 10, isOws (UInt8.ofNat (48 + d.val)) = false ∧
    UInt8.ofNat (48 + d.val) ≠ lf := by
    decide
  obtain ⟨d, -, rfl⟩ := List.mem_map.mp hb
  exact hall d

/-- The value of a `Content-Length` field. -/
theorem parseU64_eq (before after : Ows) {ds : List (Fin 10)} (hne : ds ≠ []) :
    parseU64 (trimOws (before.bytes ++ (encodeDecimal ds ++ after.bytes))) =
      if decimalValue 0 ds < 2 ^ 64 then .ok (decimalValue 0 ds)
      else .error .contentLengthOverflow := by
  have htrim : trimOws (before.bytes ++ (encodeDecimal ds ++ after.bytes)) = encodeDecimal ds :=
    trimOws_around _ _ (fun b hb => (encodeDecimal_ne ds b (List.mem_of_mem_head? hb)).1)
      fun b hb => (encodeDecimal_ne ds b (List.mem_of_mem_getLast? hb)).1
  have hempty : (encodeDecimal ds).isEmpty = false := by
    rw [List.isEmpty_eq_false_iff]
    exact fun hnil => hne (List.map_eq_nil_iff.mp hnil)
  rw [htrim, parseU64, hempty]
  exact decimal_eq ds 0 (by decide)

theorem le_hexValue (ds : List HexDigit) : ∀ n, n ≤ hexValue n ds := by
  induction ds with
  | nil => exact fun n => Nat.le_refl n
  | cons d ds ih =>
    intro n
    have := ih (n * 16 + d.value.val)
    simp only [hexValue, List.foldl_cons] at this ⊢
    omega

theorem HexDigit.encode_eq (d : HexDigit) : hexDigit d.encode = some d.value.val := by
  have hall : ∀ (v : Fin 16) (u : Bool), hexDigit (HexDigit.encode ⟨v, u⟩) = some v.val := by decide
  exact hall d.value d.upper

theorem HexDigit.encode_ne (d : HexDigit) :
    isOws d.encode = false ∧ d.encode ≠ lf ∧ d.encode ≠ 59 := by
  have hall : ∀ (v : Fin 16) (u : Bool), isOws (HexDigit.encode ⟨v, u⟩) = false ∧
      HexDigit.encode ⟨v, u⟩ ≠ lf ∧ HexDigit.encode ⟨v, u⟩ ≠ 59 := by
    decide
  exact hall d.value d.upper

theorem hexadecimal_eq (ds : List HexDigit) : ∀ n, hexValue n ds < 2 ^ 64 →
    hexadecimal n (ds.map HexDigit.encode) = .ok (hexValue n ds) := by
  induction ds with
  | nil =>
    intro n _
    rfl
  | cons d ds ih =>
    intro n hn
    have hle := le_hexValue ds (n * 16 + d.value.val)
    have hstep : hexValue n (d :: ds) = hexValue (n * 16 + d.value.val) ds := rfl
    have hmul : checkedMul n 16 = some (n * 16) := if_pos (by omega)
    have hadd : checkedAdd (n * 16) d.value.val = some (n * 16 + d.value.val) := if_pos (by omega)
    simp only [List.map_cons, hexadecimal, d.encode_eq, hmul, Option.bind_some, hadd]
    exact ih _ hn

/-- The size of a chunk, whatever is behind it on its line. -/
theorem parseChunkSize_eq {ds : List HexDigit} (hne : ds ≠ []) (ext : Option Extension)
    (hfits : hexValue 0 ds < 2 ^ 64) :
    parseChunkSize (ds.map HexDigit.encode ++ encodeExtension ext) = .ok (hexValue 0 ds) := by
  have hds : ∀ b ∈ ds.map HexDigit.encode, isOws b = false ∧ b ≠ lf ∧ b ≠ 59 := by
    intro b hb
    obtain ⟨d, -, rfl⟩ := List.mem_map.mp hb
    exact d.encode_ne
  have hempty : (ds.map HexDigit.encode).isEmpty = false := by
    rw [List.isEmpty_eq_false_iff]
    exact fun hnil => hne (List.map_eq_nil_iff.mp hnil)
  have htrim : trimOws (ds.map HexDigit.encode) = ds.map HexDigit.encode :=
    trimOws_eq_self (fun b hb => (hds b (List.mem_of_mem_head? hb)).1)
      fun b hb => (hds b (List.mem_of_mem_getLast? hb)).1
  unfold parseChunkSize encodeExtension
  cases ext with
  | none =>
    have hnone : memchr 59 (ds.map HexDigit.encode) = none :=
      memchr_eq_none fun hmem => (hds 59 hmem).2.2 rfl
    rw [Option.elim_none, List.append_nil, hnone]
    simp only [htrim, hempty]
    exact hexadecimal_eq ds 0 hfits
  | some e =>
    have hsome : memchr 59 (ds.map HexDigit.encode ++ e.blanks.bytes ++ 59 :: e.text) =
        some (ds.map HexDigit.encode ++ e.blanks.bytes).length := by
      refine memchr_append fun hmem => ?_
      rcases List.mem_append.mp hmem with hb | hb
      · exact (hds 59 hb).2.2 rfl
      · exact (ows_ne (e.blanks.blank 59 hb)).2.2.2 rfl
    rw [Option.elim_some, ← List.append_assoc, hsome]
    simp only [List.take_left, trimOws_back e.blanks.blank, htrim, hempty]
    exact hexadecimal_eq ds 0 hfits

/-! ## Header lines -/

/-- The first byte of a line decides nothing that the prefix does not. -/
theorem first_and_ciPrefix (c : UInt8) (line name : Bytes) :
    (decide (line.headD 0 ||| 0x20 = c) && ciPrefix line (c :: name)) = ciPrefix line
      (c :: name) := by
  cases line with
  | nil => exact Bool.and_false _
  | cons a line =>
    rw [ciPrefix_cons, List.headD_cons, ← Bool.and_assoc, Bool.and_self]

theorem nameByte_contentLength : ∀ l ∈ contentLengthField, isNameByte l = true :=
  List.all_eq_true.mp rfl
theorem nameByte_connection : ∀ l ∈ connectionField, isNameByte l = true :=
  List.all_eq_true.mp rfl
theorem nameByte_transferEncoding : ∀ l ∈ transferEncodingField, isNameByte l = true :=
  List.all_eq_true.mp rfl

theorem drop_name {name : Bytes} {k : Nat} (h : name.map lower = target)
    (hk : target.length + 1 = k) (value : Bytes) : (name ++ 58 :: value).drop k = value := by
  have hlen : name.length = target.length := by rw [← h, List.length_map]
  rw [← hk, ← hlen, List.drop_append, Nat.add_sub_cancel_left,
    List.drop_eq_nil_of_le (Nat.le_succ _), List.nil_append, List.drop_one, List.tail_cons]

section Named

variable {name value : Bytes} (hname : ∀ b ∈ name, isTchar b = true) (h : Head)

include hname

/-- The scanner's test for a field is the test of the name. -/
theorem named_iff (full : Bytes) {target : Bytes} {c : UInt8}
    (htarget : ∀ l ∈ target, isNameByte l = true) (hfull : full = target ++ [58])
    (hfirst : full = c :: full.tail) :
    (decide ((name ++ 58 :: value).headD 0 ||| 0x20 = c) && ciPrefix (name ++ 58 :: value) full) =
      decide (name.map lower = target) := by
  rw [hfirst, first_and_ciPrefix, ← hfirst, hfull, ciPrefix_named hname htarget]

theorem named_contentLength :
    (decide ((name ++ 58 :: value).headD 0 ||| 0x20 = 99) &&
      ciPrefix (name ++ 58 :: value) contentLengthName) = decide
        (name.map lower = contentLengthField) :=
  named_iff hname contentLengthName nameByte_contentLength rfl rfl

theorem named_connection :
    (decide ((name ++ 58 :: value).headD 0 ||| 0x20 = 99) &&
      ciPrefix (name ++ 58 :: value) connectionName) = decide (name.map lower = connectionField) :=
  named_iff hname connectionName nameByte_connection rfl rfl

theorem named_transferEncoding :
    (decide ((name ++ 58 :: value).headD 0 ||| 0x20 = 116) &&
      ciPrefix (name ++ 58 :: value) transferEncodingName) =
      decide (name.map lower = transferEncodingField) :=
  named_iff hname transferEncodingName nameByte_transferEncoding rfl rfl

/-- `Content-Length`, a number that does not contradict one already there. -/
theorem headerLine_contentLength (hfield : name.map lower = contentLengthField) {n : Nat}
    (hn : parseU64 (trimOws value) = .ok n) (hsame : ∀ prev ∈ h.contentLength, prev = n) :
    h.headerLine (name ++ 58 :: value) = .ok { h with contentLength := some n } := by
  have hany : (h.contentLength.any fun prev => prev ≠ n) = false := by
    cases hc : h.contentLength with
    | none => rfl
    | some prev => simp [hsame prev hc]
  unfold Head.headerLine
  simp only
  rw [named_contentLength hname, decide_eq_true hfield, if_pos rfl,
    drop_name (k := 15) hfield rfl, hn]
  simp only [hany]
  rfl

theorem headerLine_overflow (hfield : name.map lower = contentLengthField) {e : ParseError}
    (he : parseU64 (trimOws value) = .error e) : h.headerLine (name ++ 58 :: value) = .error e := by
  unfold Head.headerLine
  simp only
  rw [named_contentLength hname, decide_eq_true hfield, if_pos rfl,
    drop_name (k := 15) hfield rfl, he]

theorem headerLine_connection (hfield : name.map lower = connectionField) :
    h.headerLine (name ++ 58 :: value) = .ok ((value.splitOn 44).foldl Head.connectionToken h) := by
  unfold Head.headerLine
  simp only
  rw [named_contentLength hname, named_connection hname, hfield, if_neg (by decide),
    decide_eq_true rfl, if_pos rfl, drop_name (k := 11) hfield rfl]

theorem headerLine_transferEncoding (hfield : name.map lower = transferEncodingField)
    {o : Option Bool} (ho : finalCoding value = .ok o) :
    h.headerLine (name ++ 58 :: value) =
      .ok { h with tePresent := true, teChunked := o.getD h.teChunked } := by
  unfold Head.headerLine
  simp only
  rw [named_contentLength hname, named_connection hname, named_transferEncoding hname, hfield,
    if_neg (by decide), if_neg (by decide), decide_eq_true rfl, if_pos rfl,
    drop_name (k := 18) hfield rfl, ho]
  cases o <;> rfl

theorem headerLine_other (hlength : name.map lower ≠ contentLengthField)
    (hconnection : name.map lower ≠ connectionField)
    (hencoding : name.map lower ≠ transferEncodingField) :
    h.headerLine (name ++ 58 :: value) = .ok h := by
  unfold Head.headerLine
  simp only
  rw [named_contentLength hname, named_connection hname, named_transferEncoding hname,
    decide_eq_false hlength, decide_eq_false hconnection, decide_eq_false hencoding]
  rfl

end Named

theorem Spelling.tchars {name : Bytes} (hname : ∀ l ∈ name, isNameByte l = true)
    (s : Spelling name) : ∀ b ∈ s.bytes, isTchar b = true := by
  have hall : ∀ b : UInt8, isNameByte (lower b) = true → isTchar b = true :=
    forall_byte (by decide +kernel)
  intro b hb
  refine hall b (hname _ ?_)
  rw [← s.same]
  exact List.mem_map_of_mem hb

theorem Field.tchars (f : Field) : ∀ b ∈ f.name, isTchar b = true := by
  cases f with
  | contentLength name => exact name.tchars nameByte_contentLength
  | connection name => exact name.tchars nameByte_connection
  | transferEncoding name => exact name.tchars nameByte_transferEncoding
  | other name => exact name.tchars

/-- What the fields read so far say about a head. -/
def Heading.summary (h : Heading) (fs : List Field) : Head where
  contentLength := (fs.flatMap Field.lengths).head?
  status := h.status
  http10 := h.http10
  tePresent := fs.any Field.isTransferEncoding
  teChunked := (fs.flatMap Field.codings).getLast?.any Coding.isChunked
  close := (fs.flatMap Field.options).any (·.is closeOption)
  keepAliveToken := (fs.flatMap Field.options).any (·.is keepAliveOption)

/-- A field whose length does not fit is refused, whatever was read before it. -/
theorem headerLine_vast (head : Head) (f : Field) (hvast : ¬∀ n ∈ f.lengths, n < 2 ^ 64) :
    head.headerLine f.encode = .error .contentLengthOverflow := by
  have hname := f.tchars
  cases f with
  | contentLength name before digits nonempty after =>
    refine headerLine_overflow hname _ name.same ((parseU64_eq before after nonempty).trans ?_)
    refine if_neg fun hfits => hvast fun n hn => ?_
    rw [List.mem_singleton.mp hn]
    exact hfits
  | _ => exact absurd (nofun) hvast

theorem headerLine_field (h : Heading) (seen : List Field) (f : Field)
    (hagrees : ∀ m ∈ (seen ++ [f]).flatMap Field.lengths,
      ∀ n ∈ (seen ++ [f]).flatMap Field.lengths, m = n)
    (hfits : ∀ n ∈ f.lengths, n < 2 ^ 64) :
    (h.summary seen).headerLine f.encode = .ok (h.summary (seen ++ [f])) := by
  unfold Field.encode
  have hname := f.tchars
  cases f with
  | contentLength name before digits nonempty after =>
    have hsame : ∀ prev ∈ (h.summary seen).contentLength, prev = decimalValue 0 digits := by
      intro prev hprev
      refine hagrees prev ?_ _ ?_
      · rw [List.flatMap_append]
        exact List.mem_append_left _ (List.mem_of_mem_head? hprev)
      · rw [List.flatMap_append]
        exact List.mem_append_right _ (List.mem_singleton_self _)
    refine (headerLine_contentLength hname _ name.same
      ((parseU64_eq before after nonempty).trans (if_pos (hfits _ List.mem_cons_self)))
        hsame).trans ?_
    have hfirst : (seen.flatMap Field.lengths ++ [decimalValue 0 digits]).head? =
        some (decimalValue 0 digits) := by
      cases hseen : seen.flatMap Field.lengths with
      | nil => rfl
      | cons m ms =>
        rw [List.cons_append, List.head?_cons, hsame m (by simp [Heading.summary, hseen])]
    simp only [Heading.summary, List.flatMap_append, List.flatMap_singleton, Field.lengths, hfirst,
      Field.codings, Field.options, List.append_nil, List.any_append, List.any_cons, List.any_nil,
      Field.isTransferEncoding, Bool.or_false]
  | connection name options =>
    rw [headerLine_connection hname _ name.same]
    simp only [Field.value]
    rw [connection_list]
    simp [Heading.summary, Head.withOptions, Field.lengths, Field.isTransferEncoding, Field.codings,
      Field.options]
  | transferEncoding name codings =>
    refine (headerLine_transferEncoding hname _ name.same
      ((finalCoding_eq _).trans (codings_list codings none))).trans ?_
    cases hlast : (codings.filterMap Element.item).getLast? with
    | none | some c =>
      simp [Heading.summary, Field.lengths, Field.isTransferEncoding, Field.codings,
        Field.options, hlast]
  | other name unread value line =>
    rw [headerLine_other hname _ (fun heq => unread.1 (decide_eq_true heq))
      (fun heq => unread.2.1 (decide_eq_true heq)) fun heq => unread.2.2 (decide_eq_true heq)]
    simp [Heading.summary, Field.lengths, Field.isTransferEncoding, Field.codings, Field.options]

end Shb.Http1
