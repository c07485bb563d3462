/-
  StackCalc.Proofs.EncodedTexts

  Bytes are decoded exactly to the text whose encoding they are (`decode_eq_ok_iff`).  A first byte
  and those behind it are a character exactly if they are its encoding (`encode_of_spells`,
  `spells_encode`), and so bytes begin with one character at most (`encode_unique`).  Decoding
  takes the bytes in blocks, whose last bytes may belong to a character that ends in the next one:
  what is kept of a block is where a text that it begins would go on (`decodeBlock_ok`), and such a
  block is never refused (`decodeBlock_encoded`).
-/

import Mathlib
import StackCalc.Files

namespace StackCalc
namespace Text
namespace Utf8

variable {first : UInt8} {others rest behind : List UInt8} {form : Form} {c : Char} {n more : Nat}

/-! ## Characters -/

/-- Bytes that go on with a character of a form, all of them or the first few. -/
def Fits (form : Form) : List UInt8 → Prop
  | [] => True
  | next :: rest =>
    within form.least form.greatest next ∧ (∀ byte ∈ rest, within 0x80 0xBF byte)
      ∧ rest.length + 1 ≤ form.more

theorem tail_of_fits (h : Fits form others) : tail form others = others := by
  cases others with
  | nil => rfl
  | cons next rest =>
    obtain ⟨bounds, tails, count⟩ := h
    have some : form.more ≠ 0 := by omega
    have taken : rest.take (form.more - 1) = rest := List.take_of_length_le (by omega)
    rw [tail, if_pos (by simp [some, bounds]), taken, List.takeWhile_eq_self_iff.2 tails]

/-- The bytes that go on with a character are followed by anything. -/
theorem tail_append (h : Fits form others) (full : others.length = form.more)
    (behind : List UInt8) : tail form (others ++ behind) = others := by
  cases others with
  | nil =>
    have none : form.more = 0 := full.symm
    cases behind with
    | nil => rfl
    | cons next behind => simp [tail, none]
  | cons next rest =>
    obtain ⟨bounds, tails, count⟩ := h
    have some : form.more ≠ 0 := by omega
    have taken : (rest ++ behind).take (form.more - 1) = rest :=
      List.take_left' (by simp at full; omega)
    rw [List.cons_append, tail, if_pos (by simp [some, bounds]), taken,
      List.takeWhile_eq_self_iff.2 tails]

/-- The bytes that go on with a character are the first ones, as many as fit. -/
theorem fits_tail (form : Form) (rest : List UInt8) :
    Fits form (tail form rest) ∧ tail form rest <+: rest := by
  cases rest with
  | nil => exact ⟨trivial, List.prefix_rfl⟩
  | cons next rest =>
    rw [tail]
    split
    · rename_i h
      obtain ⟨some, bounds⟩ := Bool.and_eq_true_iff.1 h
      have more : form.more ≠ 0 := by simpa using some
      have first : (rest.take (form.more - 1)).takeWhile (within 0x80 0xBF)
          <+: rest.take (form.more - 1) := List.takeWhile_prefix _
      have count := first.length_le.trans (List.length_take_le _ _)
      exact ⟨⟨bounds, fun byte found => List.mem_takeWhile_imp found, by omega⟩,
        (List.prefix_cons_inj next).2 (first.trans (List.take_prefix _ _))⟩
    · exact ⟨trivial, List.nil_prefix⟩

/-- A first byte and those behind it are a character. -/
def Spells (first : UInt8) (others : List UInt8) (c : Char) : Prop :=
  ∃ form, form? first.toNat = some form ∧ Fits form others ∧ others.length = form.more
    ∧ character form others = c

theorem beginning_whole (h : Spells first others c) (behind : List UInt8) :
    beginning first (others ++ behind) = .whole c others.length := by
  obtain ⟨form, starts, fits, full, rfl⟩ := h
  rw [beginning, starts]
  dsimp only
  rw [tail_append fits full, if_pos full, full]

theorem spells_of_beginning (h : beginning first rest = .whole c more) :
    ∃ others behind, Spells first others c ∧ rest = others ++ behind ∧ others.length = more := by
  unfold beginning at h
  split at h
  · cases h
  · rename_i form starts
    obtain ⟨fits, behind, cut⟩ := fits_tail form rest
    dsimp only at h
    split_ifs at h with full
    cases h
    exact ⟨_, behind, ⟨form, starts, fits, full, rfl⟩, cut.symm, full⟩

theorem Fits.left (h : Fits form (others ++ behind)) : Fits form others := by
  cases others with
  | nil => trivial
  | cons next others =>
    have count : (others ++ behind).length + 1 ≤ form.more := h.2.2
    obtain ⟨bounds, tails, -⟩ := h
    rw [List.length_append] at count
    exact ⟨bounds, fun byte found => tails byte (List.mem_append_left _ found), by omega⟩

/-- The first bytes of a character, but not all of them, are a piece of it. -/
theorem beginning_piece (h : Spells first (others ++ behind) c) (left : behind ≠ []) :
    beginning first others = .piece := by
  obtain ⟨form, starts, fits, full, -⟩ := h
  have short : others.length ≠ form.more := by
    rw [List.length_append] at full
    have := List.length_pos_of_ne_nil left
    omega
  rw [beginning, starts]
  dsimp only
  rw [tail_of_fits fits.left, if_neg short, if_pos rfl]

/-! ## The encoding of a character -/

/-- The forms by their numbers of bytes.  The bounds of the next byte leave out what has a shorter
    form, the surrogates, and what is above all characters. -/
theorem form?_cases (h : form? n = some form) :
    n < 0x80 ∧ form.more = 0 ∧ form.high = n
      ∨ (0xC2 ≤ n ∧ n < 0xE0) ∧ form.more = 1 ∧ form.high = n - 0xC0
        ∧ form.least = 0x80 ∧ form.greatest = 0xBF
      ∨ (0xE0 ≤ n ∧ n < 0xF0) ∧ form.more = 2 ∧ form.high = n - 0xE0
        ∧ (0x80 ≤ form.least ∧ (n = 0xE0 → 0xA0 ≤ form.least))
        ∧ form.greatest ≤ 0xBF ∧ (n = 0xED → form.greatest ≤ 0x9F)
      ∨ (0xF0 ≤ n ∧ n < 0xF5) ∧ form.more = 3 ∧ form.high = n - 0xF0
        ∧ (0x80 ≤ form.least ∧ (n = 0xF0 → 0x90 ≤ form.least))
        ∧ form.greatest ≤ 0xBF ∧ (n = 0xF4 → form.greatest ≤ 0x8F) := by
  rw [form?] at h
  by_cases one : n < 0x80
  · rw [if_pos one] at h
    cases h
    exact .inl ⟨one, rfl, rfl⟩
  rw [if_neg one] at h
  by_cases start : n < 0xC2
  · rw [if_pos start] at h
    cases h
  rw [if_neg start] at h
  by_cases two : n < 0xE0
  · rw [if_pos two] at h
    cases h
    exact .inr (.inl ⟨⟨by omega, two⟩, rfl, rfl, rfl, rfl⟩)
  rw [if_neg two] at h
  by_cases three : n < 0xF0
  · rw [if_pos three] at h
    cases h
    refine .inr (.inr (.inl ⟨⟨by omega, three⟩, rfl, rfl, ?_⟩))
    dsimp only
    split_ifs <;> omega
  rw [if_neg three] at h
  by_cases four : n < 0xF5
  · rw [if_pos four] at h
    cases h
    refine .inr (.inr (.inr ⟨⟨by omega, four⟩, rfl, rfl, ?_⟩))
    dsimp only
    split_ifs <;> omega
  · rw [if_neg four] at h
    cases h

theorem toNat_ofNat (h : n < 0xD800 ∨ 0xDFFF < n ∧ n < 0x110000) :
    (Char.ofNat n).val.toNat = n := by
  have value := Char.toNat_ofNat n
  rw [if_pos h] at value
  exact value

theorem byte_eq {byte : UInt8} (h : n % 256 = byte.toNat) : UInt8.ofNat n = byte :=
  UInt8.toNat_inj.1 (UInt8.toNat_ofNat'.trans h)

/-- The bytes of a character are its encoding. -/
theorem encode_of_spells (h : Spells first others c) :
    String.utf8EncodeChar c = first :: others := by
  obtain ⟨form, starts, fits, full, rfl⟩ := h
  -- in every form the bounds keep the value among the characters that have no shorter form
  obtain ⟨range, more, high⟩ | ⟨range, more, high, least, greatest⟩
    | ⟨range, more, high, least, greatest⟩ | ⟨range, more, high, least, greatest⟩ :=
    form?_cases starts
  · obtain rfl := List.eq_nil_of_length_eq_zero (full.trans more)
    have value : (Char.ofNat first.toNat).val.toNat = first.toNat := toNat_ofNat (by omega)
    rw [character, List.foldl_nil, high, String.utf8EncodeChar, value, if_pos (by omega)]
    simp only [List.cons.injEq, and_true]
    exact byte_eq (by omega)
  · obtain ⟨a, rfl⟩ := List.length_eq_one_iff.1 (full.trans more)
    simp only [Fits, within, Bool.and_eq_true, decide_eq_true_eq, least, greatest] at fits
    have value := toNat_ofNat (n := (first.toNat - 0xC0) * 64 + (a.toNat - 0x80)) (by omega)
    rw [character, List.foldl_cons, List.foldl_nil, high, String.utf8EncodeChar, value,
      if_neg (by omega), if_pos (by omega)]
    simp only [List.cons.injEq, and_true]
    exact ⟨byte_eq (by omega), byte_eq (by omega)⟩
  · obtain ⟨a, b, rfl⟩ := List.length_eq_two.1 (full.trans more)
    simp only [Fits, within, Bool.and_eq_true, decide_eq_true_eq,
      List.forall_mem_singleton] at fits
    have value := toNat_ofNat
      (n := ((first.toNat - 0xE0) * 64 + (a.toNat - 0x80)) * 64 + (b.toNat - 0x80)) (by omega)
    rw [character, List.foldl_cons, List.foldl_cons, List.foldl_nil, high, String.utf8EncodeChar,
      value, if_neg (by omega), if_neg (by omega), if_pos (by omega)]
    simp only [List.cons.injEq, and_true]
    exact ⟨byte_eq (by omega), byte_eq (by omega), byte_eq (by omega)⟩
  · obtain ⟨a, b, d, rfl⟩ := List.length_eq_three.1 (full.trans more)
    simp only [Fits, within, Bool.and_eq_true, decide_eq_true_eq, List.forall_mem_cons,
      List.not_mem_nil, false_implies, implies_true, and_true] at fits
    have value := toNat_ofNat (n := (((first.toNat - 0xF0) * 64 + (a.toNat - 0x80)) * 64
      + (b.toNat - 0x80)) * 64 + (d.toNat - 0x80)) (by omega)
    rw [character, List.foldl_cons, List.foldl_cons, List.foldl_cons, List.foldl_nil, high,
      String.utf8EncodeChar, value, if_neg (by omega), if_neg (by omega), if_neg (by omega)]
    simp only [List.cons.injEq, and_true]
    exact ⟨byte_eq (by omega), byte_eq (by omega), byte_eq (by omega), byte_eq (by omega)⟩

theorem toNat_byte (h : n < 256) : (UInt8.ofNat n).toNat = n :=
  UInt8.toNat_ofNat'.trans (Nat.mod_eq_of_lt h)

theorem ofNat_eq (h : n = c.val.toNat) : Char.ofNat n = c := by
  rw [h]
  exact Char.ofNat_toNat c

/-- The encoding of a character is its bytes. -/
theorem spells_encode (c : Char) :
    ∃ first others, String.utf8EncodeChar c = first :: others ∧ Spells first others c := by
  have valid : c.val.toNat < 0xD800 ∨ 0xDFFF < c.val.toNat ∧ c.val.toNat < 0x110000 := c.valid
  rw [String.utf8EncodeChar]
  generalize value : c.val.toNat = v at valid
  -- by the number of bytes; a value with so many of them has the form that its first byte starts
  split_ifs with one two three
  · have first : (UInt8.ofNat v).toNat = v := toNat_byte (by omega)
    have starts : form? v = some ⟨0, v, 0x80, 0xBF⟩ := by rw [form?, if_pos (by omega)]
    refine ⟨_, _, rfl, _, by rw [first, starts], trivial, rfl, ofNat_eq ?_⟩
    rw [List.foldl_nil, value]
  · have first : (UInt8.ofNat (v / 64 % 32 + 192)).toNat = v / 64 + 192 := by
      rw [toNat_byte (by omega)]
      omega
    have starts : form? (v / 64 + 192) = some ⟨1, v / 64, 0x80, 0xBF⟩ := by
      rw [form?, if_neg (by omega), if_neg (by omega), if_pos (by omega), Nat.add_sub_cancel]
    have next : (UInt8.ofNat (v % 64 + 128)).toNat = v % 64 + 128 := toNat_byte (by omega)
    refine ⟨_, _, rfl, _, by rw [first, starts], ?_, rfl, ofNat_eq ?_⟩
    · simp only [Fits, within, next, Bool.and_eq_true, decide_eq_true_eq, List.not_mem_nil,
        false_implies, implies_true, List.length_nil, Nat.zero_add, Nat.le_refl, and_true]
      omega
    · simp only [List.foldl_cons, List.foldl_nil, next]
      omega
  · have first : (UInt8.ofNat (v / 4096 % 16 + 224)).toNat = v / 4096 + 224 := by
      rw [toNat_byte (by omega)]
      omega
    have starts : form? (v / 4096 + 224) = some ⟨2, v / 4096,
        if v / 4096 + 224 = 0xE0 then 0xA0 else 0x80,
        if v / 4096 + 224 = 0xED then 0x9F else 0xBF⟩ := by
      rw [form?, if_neg (by omega), if_neg (by omega), if_neg (by omega), if_pos (by omega),
        Nat.add_sub_cancel]
    have next : (UInt8.ofNat (v / 64 % 64 + 128)).toNat = v / 64 % 64 + 128 :=
      toNat_byte (by omega)
    have last : (UInt8.ofNat (v % 64 + 128)).toNat = v % 64 + 128 := toNat_byte (by omega)
    refine ⟨_, _, rfl, _, by rw [first, starts], ?_, rfl, ofNat_eq ?_⟩
    · simp only [Fits, within, next, last, Bool.and_eq_true, decide_eq_true_eq,
        List.forall_mem_singleton, List.length_singleton, Nat.reduceAdd, Nat.le_refl, and_true]
      split_ifs <;> omega
    · simp only [List.foldl_cons, List.foldl_nil, next, last]
      omega
  · have first : (UInt8.ofNat (v / 262144 % 8 + 240)).toNat = v / 262144 + 240 := by
      rw [toNat_byte (by omega)]
      omega
    have starts : form? (v / 262144 + 240) = some ⟨3, v / 262144,
        if v / 262144 + 240 = 0xF0 then 0x90 else 0x80,
        if v / 262144 + 240 = 0xF4 then 0x8F else 0xBF⟩ := by
      rw [form?, if_neg (by omega), if_neg (by omega), if_neg (by omega), if_neg (by omega),
        if_pos (by omega), Nat.add_sub_cancel]
    have next : (UInt8.ofNat (v / 4096 % 64 + 128)).toNat = v / 4096 % 64 + 128 :=
      toNat_byte (by omega)
    have third : (UInt8.ofNat (v / 64 % 64 + 128)).toNat = v / 64 % 64 + 128 :=
      toNat_byte (by omega)
    have last : (UInt8.ofNat (v % 64 + 128)).toNat = v % 64 + 128 := toNat_byte (by omega)
    refine ⟨_, _, rfl, _, by rw [first, starts], ?_, rfl, ofNat_eq ?_⟩
    · simp only [Fits, within, next, third, last, Bool.and_eq_true, decide_eq_true_eq,
        List.forall_mem_cons, List.not_mem_nil, false_implies, implies_true, and_true,
        List.length_cons, List.length_nil, Nat.reduceAdd, Nat.le_refl]
      split_ifs <;> omega
    · simp only [List.foldl_cons, List.foldl_nil, next, third, last]
      omega

/-! ## Texts -/

/-- The bytes of characters. -/
def encoded (text : List Char) : List UInt8 := text.flatMap String.utf8EncodeChar

theorem encoded_cons (c : Char) (text : List Char) :
    encoded (c :: text) = String.utf8EncodeChar c ++ encoded text := List.flatMap_cons

theorem encoded_append (text text' : List Char) :
    encoded (text ++ text') = encoded text ++ encoded text' := List.flatMap_append

theorem encoded_eq_nil {text : List Char} (h : encoded text = []) : text = [] := by
  cases text with
  | nil => rfl
  | cons c text =>
    obtain ⟨first, others, whole, -⟩ := spells_encode c
    rw [encoded_cons, whole] at h
    cases h

/-- Bytes begin with the encoding of one character at most. -/
theorem encode_unique {d : Char}
    (h : String.utf8EncodeChar c ++ rest = String.utf8EncodeChar d ++ behind) :
    c = d ∧ rest = behind := by
  obtain ⟨first, others, whole, spells⟩ := spells_encode c
  obtain ⟨first', others', whole', spells'⟩ := spells_encode d
  have same : first = first' ∧ others ++ rest = others' ++ behind := by
    simpa [whole, whole'] using h
  obtain ⟨rfl, bytes⟩ := same
  have begins := beginning_whole spells rest
  rw [bytes, beginning_whole spells' behind] at begins
  obtain rfl : d = c := (Beginning.whole.inj begins).1
  exact ⟨rfl, List.append_cancel_left h⟩

/-- Bytes that begin a text belong to its first characters. -/
theorem encoded_append_inj {text start : List Char} (h : encoded start ++ rest = encoded text) :
    ∃ left, text = start ++ left ∧ rest = encoded left := by
  induction start generalizing text with
  | nil => exact ⟨text, rfl, h⟩
  | cons c start ih =>
    cases text with
    | nil =>
      have nothing := encoded_eq_nil (List.append_eq_nil_iff.1 h).1
      cases nothing
    | cons d text =>
      rw [encoded_cons, encoded_cons, List.append_assoc] at h
      obtain ⟨rfl, tail⟩ := encode_unique h
      obtain ⟨left, rfl, rfl⟩ := ih tail
      exact ⟨left, rfl, rfl⟩

/-- A text is known from its bytes. -/
theorem encoded_inj {text text' : List Char} (h : encoded text = encoded text') : text = text' := by
  obtain ⟨left, rfl, nothing⟩ := encoded_append_inj ((List.append_nil _).trans h)
  rw [encoded_eq_nil nothing.symm, List.append_nil]

/-! ## Blocks -/

variable {bytes kept : List UInt8} {done done' text : List Char} {position : Nat} {last : Bool}

/-- What is decoded of a block are characters whose bytes it begins with. -/
theorem decodeBlock_ok (h : decodeBlock last position done bytes = .ok (done', kept)) :
    ∃ text, bytes = encoded text ++ kept ∧ done' = text.reverse ++ done
      ∧ (last = true → kept = []) := by
  -- on the recursion of the block: a character in front of those behind it
  fun_induction decodeBlock last position done bytes with
  | case1 position done =>
    cases h
    exact ⟨[], rfl, rfl, fun _ => rfl⟩
  | case2 position done first rest c more begins ih =>
    obtain ⟨text, cut, rfl, final⟩ := ih h
    obtain ⟨others, behind, spells, rfl, rfl⟩ := spells_of_beginning begins
    rw [List.drop_left] at cut
    refine ⟨c :: text, ?_, by simp, final⟩
    rw [encoded_cons, encode_of_spells spells, cut]
    simp
  | case3 => cases h
  | case4 position done first rest begins isLast =>
    cases h
    exact ⟨[], rfl, rfl, fun last => absurd last isLast⟩
  | case5 position done first rest reason count begins half =>
    cases h
    refine ⟨[], rfl, rfl, fun last => ?_⟩
    simp [last] at half
  | case6 => cases h

/-- Bytes that begin a text begin with a character of it, or with a piece of its last one. -/
theorem beginning_encoded (whole : first :: rest ++ behind = encoded text) :
    (∃ c text' others rest', beginning first rest = .whole c others.length
        ∧ rest = others ++ rest' ∧ rest' ++ behind = encoded text' ∧ text = c :: text')
      ∨ beginning first rest = .piece ∧ behind ≠ [] := by
  cases text with
  | nil => cases whole
  | cons c text =>
    obtain ⟨first', others, bytes, spells⟩ := spells_encode c
    rw [encoded_cons, bytes] at whole
    obtain ⟨rfl, cut⟩ := List.cons.inj whole
    -- the bytes end within the character, or at its end, or behind it
    obtain ⟨left, rfl, rfl⟩ | ⟨rest', rfl, tail⟩ := List.append_eq_append_iff.1 cut
    · cases left with
      | nil =>
        refine .inl ⟨c, text, rest, [], ?_, by simp, by simp, rfl⟩
        simpa using beginning_whole spells []
      | cons byte left => exact .inr ⟨beginning_piece spells (by simp), by simp⟩
    · exact .inl ⟨c, text, others, rest', beginning_whole spells rest', rfl, tail.symm, rfl⟩

/-- A block is decoded if it begins a text, and ends it if it is the last one. -/
theorem decodeBlock_encoded (whole : bytes ++ behind = encoded text)
    (final : last = true → behind = []) (position : Nat) (done : List Char) :
    ∃ done' kept, decodeBlock last position done bytes = .ok (done', kept) := by
  fun_induction decodeBlock last position done bytes generalizing text with
  | case1 position done => exact ⟨_, _, rfl⟩
  | case2 position done first rest c more begins ih =>
    obtain ⟨c', text', others, rest', begins', rfl, tail, rfl⟩ | ⟨begins', -⟩ :=
      beginning_encoded whole
    · rw [begins] at begins'
      cases begins'
      have behindIt : (others ++ rest').drop others.length ++ behind = encoded text' := by
        rw [List.drop_left, tail]
      exact ih behindIt
    · rw [begins] at begins'
      cases begins'
  | case3 position done first rest begins isLast =>
    obtain ⟨_, _, _, _, begins', -⟩ | ⟨-, left⟩ := beginning_encoded whole
    · rw [begins] at begins'
      cases begins'
    · exact absurd (final isLast) left
  | case4 => exact ⟨_, _, rfl⟩
  | case5 => exact ⟨_, _, rfl⟩
  | case6 position done first rest reason count begins =>
    obtain ⟨_, _, _, _, begins', -⟩ | ⟨begins', -⟩ := beginning_encoded whole
    · rw [begins] at begins'
      cases begins'
    · rw [begins] at begins'
      cases begins'

/-- The last block is decoded exactly if it is a text. -/
theorem decodeBlock_last_iff (position : Nat) :
    (decodeBlock true position done bytes).map (·.1) = .ok done'
      ↔ ∃ text, bytes = encoded text ∧ done' = text.reverse ++ done := by
  constructor
  · intro h
    cases block : decodeBlock true position done bytes with
    | error fault =>
      rw [block] at h
      cases h
    | ok decoded =>
      rw [block] at h
      cases h
      obtain ⟨text, whole, chars, final⟩ := decodeBlock_ok block
      rw [final rfl, List.append_nil] at whole
      exact ⟨text, whole, chars⟩
  · rintro ⟨text, rfl, rfl⟩
    obtain ⟨chars, kept, block⟩ :=
      decodeBlock_encoded (List.append_nil (encoded text)) (fun _ => rfl) position done
    obtain ⟨text', whole, rfl, final⟩ := decodeBlock_ok block
    rw [final rfl, List.append_nil] at whole
    rw [block, encoded_inj whole]
    rfl

/-- All blocks together are decoded exactly if their bytes are a text. -/
theorem decodeBlocks_ok_iff :
    decodeBlocks done kept bytes = .ok done'
      ↔ ∃ text, kept ++ bytes = encoded text ∧ done' = text.reverse ++ done := by
  -- on the recursion of the blocks: the bytes kept of one stand in front of those behind it
  fun_induction decodeBlocks done kept bytes with
  | case1 done kept => rw [decodeBlock_last_iff, List.append_nil]
  | case2 done kept first rest next kept' block ih =>
    obtain ⟨start, cut, rfl, -⟩ := decodeBlock_ok block
    have whole : kept ++ first :: rest
        = encoded start ++ (kept' ++ (first :: rest).drop blockSize) := by
      rw [← List.append_assoc, ← cut, List.append_assoc, List.take_append_drop]
    rw [ih, whole]
    constructor
    · rintro ⟨text, bytes, rfl⟩
      exact ⟨start ++ text, by rw [bytes, encoded_append], by simp⟩
    · rintro ⟨text, bytes, rfl⟩
      obtain ⟨left, rfl, behind⟩ := encoded_append_inj bytes
      exact ⟨left, behind, by simp⟩
  | case3 done kept first rest fault block =>
    refine ⟨fun h => (by cases h), ?_⟩
    rintro ⟨text, whole, rfl⟩
    rw [← List.take_append_drop blockSize (first :: rest), ← List.append_assoc] at whole
    have decoded : ∃ chars kept', decodeBlock false 0 done _ = .ok (chars, kept') :=
      decodeBlock_encoded whole (fun final => by cases final) 0 done
    obtain ⟨chars, kept', decoded⟩ := decoded
    rw [block] at decoded
    cases decoded

/-- Bytes are decoded exactly to the text whose encoding they are. -/
theorem decode_eq_ok_iff {text : String} :
    decode bytes = .ok text ↔ bytes = encoded text.toList := by
  rw [decode]
  constructor
  · intro h
    cases blocks : decodeBlocks [] [] bytes with
    | error fault =>
      rw [blocks] at h
      cases h
    | ok chars =>
      rw [blocks] at h
      cases h
      obtain ⟨text, whole, rfl⟩ := decodeBlocks_ok_iff.1 blocks
      simpa using whole
  · intro whole
    have blocks : decodeBlocks [] [] bytes = .ok text.toList.reverse :=
      decodeBlocks_ok_iff.2 ⟨text.toList, whole, by simp⟩
    rw [blocks]
    simp [Except.map]

end Utf8
end Text

/-! ## Files -/

open Text

variable {bytes : List UInt8} {files : Files} {path : String}

/-- A file of bytes that encode no text cannot be decoded, and no other file. -/
theorem FileEntry.ofBytes_undecodable_iff :
    (∃ fault, ofBytes bytes = .undecodable fault)
      ↔ ∀ content : String, bytes ≠ Utf8.encoded content.toList := by
  simp only [← Utf8.decode_eq_ok_iff, ofBytes, ne_eq]
  cases Utf8.decode bytes <;> simp

/-- A file that is there is read exactly if its bytes encode a text. -/
theorem Files.read_ofBytes (h : files.look path = .ok (.ofBytes bytes)) :
    (∃ fault, files.read path = .error (.undecodable fault))
      ↔ ∀ content : String, bytes ≠ Utf8.encoded content.toList := by
  rw [← FileEntry.ofBytes_undecodable_iff, read, h]
  cases entry : FileEntry.ofBytes bytes <;> simp

end StackCalc
