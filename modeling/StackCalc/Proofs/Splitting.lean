/-
  StackCalc.Proofs.Splitting

  Scanning is splitting at blanks.  Every text can be cut into single blanks, runs and comments,
  where a comment goes from a run that is just its opening bracket to the next run that is just
  its closing one (`Parts`).  Scanning stops at a blank of such a cut that must not stand between
  words, and otherwise its words are the runs of the cut (`Parts.readAs`).  The kind of a word
  says what its characters are, and they say what the kind is (`describes_kindOf`).
-/

import StackCalc.Proofs.Terminals

namespace StackCalc

open StackCalc.Text

/-! ## Comments -/

section

variable {r s t body : List Char} {b : Char}

/-- No run inside of a comment but the last one closes it. -/
theorem skipComment_over (hr : IsRun r) (hcloses : r ≠ ['>']) (hb : isBlank b = true)
    (p : Position) (t : List Char) :
    skipComment true p (r ++ b :: t) = skipComment true (p.afterAll (r ++ [b])) t := by
  cases r with
  | nil =>
    have hopen : ¬(true && b = '>' && t.head?.all isBlank) = true := by
      intro hclose
      simp only [Bool.true_and, Bool.and_eq_true, decide_eq_true_eq] at hclose
      rw [hclose.1] at hb
      cases hb
    rw [List.nil_append, skipComment, if_neg hopen, hb]
    rfl
  | cons c r => rw [skipComment_ink hr hcloses, skipComment_piece hr hb]

/-- Behind a blank a comment goes on to the first run that closes it. -/
theorem skipComment_body (hbody : ['>'] ∉ runs body) (hb : isBlank b = true) (p : Position)
    (t : List Char) : ∃ q, skipComment true p (body ++ b :: t) = skipComment true q t := by
  induction body using runInduction generalizing p with
  | run r hr =>
    rw [runs_run hr, List.mem_singleton] at hbody
    exact ⟨_, skipComment_over hr (Ne.symm hbody) hb p t⟩
  | piece r c body hr hc ih =>
    rw [runs_append hc, runs_run hr, List.mem_append, not_or, List.mem_singleton] at hbody
    rw [List.append_assoc, List.cons_append, skipComment_over hr (Ne.symm hbody.1) hc]
    exact ih hbody.2 _

/-- Where nothing closes a comment, it goes on to the end. -/
theorem skipComment_unclosed (hs : ['>'] ∉ runs s) (p : Position) :
    (skipComment true p s).2 = [] := by
  induction s using runInduction generalizing p with
  | run r hr =>
    rw [runs_run hr, List.mem_singleton] at hs
    cases r with
    | nil => rfl
    | cons c r =>
      have hskip := skipComment_ink hr (Ne.symm hs) p []
      rw [List.append_nil, skipComment_run hr] at hskip
      rw [hskip]
  | piece r b s hr hb ih =>
    rw [runs_append hb, runs_run hr, List.mem_append, not_or, List.mem_singleton] at hs
    rw [skipComment_over hr (Ne.symm hs.1) hb]
    exact ih hs.2 _

/-- Right behind its opening bracket a comment is not closed. -/
theorem skipComment_fresh (hs : EndsRun s) (p : Position) :
    skipComment false p s = skipComment true p s := by
  cases s with
  | nil => rfl
  | cons b s =>
    have hbracket : b ≠ '>' := by
      rintro rfl
      cases hs
    rw [skipComment, skipComment, if_neg (by simp), if_neg (by simp [hbracket])]

/-- Nothing closes a comment in a text, or a bracket at its front does, or one behind a blank. -/
theorem closes_cases (s : List Char) :
    ['>'] ∉ runs s ∨ (∃ t, s = '>' :: t ∧ EndsRun t)
      ∨ ∃ body b t, s = body ++ b :: '>' :: t ∧ ['>'] ∉ runs body ∧ isBlank b = true
        ∧ EndsRun t := by
  -- On the runs: the first of them that is just a bracket is the one that closes.
  induction s using runInduction with
  | run r hr =>
    by_cases hcloses : r = ['>']
    · exact .inr (.inl ⟨[], hcloses, rfl⟩)
    · rw [runs_run hr, List.mem_singleton]
      exact .inl (Ne.symm hcloses)
  | piece r b s hr hb ih =>
    by_cases hcloses : r = ['>']
    · subst hcloses
      exact .inr (.inl ⟨b :: s, rfl, hb⟩)
    · have hnotin : ∀ body, ['>'] ∉ runs body → ['>'] ∉ runs (r ++ b :: body) := by
        intro body hbody
        rw [runs_append hb, runs_run hr, List.mem_append, List.mem_singleton]
        exact not_or.mpr ⟨Ne.symm hcloses, hbody⟩
      obtain hopen | ⟨t, rfl, ht⟩ | ⟨body, c, t, rfl, hbody, hc, ht⟩ := ih
      · exact .inl (hnotin s hopen)
      · refine .inr (.inr ⟨r, b, t, rfl, ?_, hb, ht⟩)
        rw [runs_run hr, List.mem_singleton]
        exact Ne.symm hcloses
      · refine .inr (.inr ⟨r ++ b :: body, c, t, ?_, hnotin body hbody, hc, ht⟩)
        rw [List.append_assoc, List.cons_append]

end

/-! ## Parts of a text -/

/-- A part of a text: a blank outside of comments, a run outside of comments, or a comment. -/
inductive Part where
  | blank (c : Char)
  | word (run : List Char)
  | comment (text : List Char)
deriving DecidableEq, Repr

/-- The run of a part that is one. -/
def Part.word? : Part → Option (List Char)
  | word run => some run
  | _ => none

/-- A part that must not stand where it stands. -/
def Part.isStray : Part → Bool
  | blank c => !isSkippable c
  | _ => false

theorem Part.isStray_iff {part : Part} :
    part.isStray = true ↔ ∃ c, part = .blank c ∧ c ∉ [' ', '\t', '\x0c', '\r', '\n'] := by
  cases part <;> simp [isStray, isSkippable, and_assoc]

/-- A text and its parts.  Words are runs as long as they can be.  A comment starts with a bracket
    that stands alone and goes on to the next closing bracket that stands alone, or to the end
    of the text if there is none. -/
inductive Parts : List Char → List Part → Prop
  | done : Parts [] []
  | blank {c s parts} (blank : isBlank c = true) (more : Parts s parts) :
      Parts (c :: s) (.blank c :: parts)
  | word {r s parts} (run : IsRun r) (nonempty : r ≠ []) (opens : r ≠ ['<']) (ends : EndsRun s)
      (more : Parts s parts) : Parts (r ++ s) (.word r :: parts)
  | closed {body b s parts} (starts : EndsRun body) (unclosed : ['>'] ∉ runs body)
      (blank : isBlank b = true) (ends : EndsRun s) (more : Parts s parts) :
      Parts ('<' :: (body ++ b :: '>' :: s)) (.comment ('<' :: (body ++ [b, '>'])) :: parts)
  | unclosed {body} (starts : EndsRun body) (unclosed : ['>'] ∉ runs body) :
      Parts ('<' :: body) [.comment ('<' :: body)]

/-- Every text has parts. -/
theorem exists_parts (s : List Char) : ∃ parts, Parts s parts := by
  induction s using scanInduction with
  | nil => exact ⟨[], .done⟩
  | blank b s hb ih =>
    obtain ⟨parts, hparts⟩ := ih s le_rfl
    exact ⟨_, .blank hb hparts⟩
  | word r t hr hne hopens ht ih =>
    obtain ⟨parts, hparts⟩ := ih
    exact ⟨_, .word hr hne hopens ht hparts⟩
  | comment t ht ih =>
    obtain hopen | ⟨s, rfl, _⟩ | ⟨body, b, s, rfl, hbody, hb, hs⟩ := closes_cases t
    · exact ⟨_, .unclosed ht hopen⟩
    · -- A bracket right behind the one that opens would be in one run with it.
      cases ht
    · have hstarts : EndsRun body := by
        cases body with
        | nil => rfl
        | cons c body => exact ht
      obtain ⟨parts, hparts⟩ := ih s (by
        rw [List.length_append, List.length_cons, List.length_cons]
        omega)
      exact ⟨_, .closed hstarts hbody hb hs hparts⟩

/-- A comment is passed over as a whole. -/
theorem scanFrom_closed {body s : List Char} {b : Char} (hstarts : EndsRun body)
    (hbody : ['>'] ∉ runs body) (hb : isBlank b = true) (hs : EndsRun s) (p : Position) :
    ∃ q, scanFrom p ('<' :: (body ++ b :: '>' :: s)) = scanFrom q s := by
  have hfresh : EndsRun (body ++ b :: '>' :: s) := by
    cases body with
    | nil => exact hb
    | cons c body => exact hstarts
  obtain ⟨q, hskip⟩ := skipComment_body hbody hb (p.after '<') ('>' :: s)
  have hclose : skipComment true q ('>' :: s) = (q.after '>', s) := by
    rw [skipComment, if_pos (by simpa [EndsRun] using hs)]
  rw [scanFrom_comment hfresh, skipComment_fresh hfresh, hskip, hclose]
  exact ⟨_, rfl⟩

theorem scanFrom_unclosed {body : List Char} (hstarts : EndsRun body)
    (hbody : ['>'] ∉ runs body) (p : Position) : scanFrom p ('<' :: body) = ⟨[], none⟩ := by
  rw [scanFrom_comment hstarts, skipComment_fresh hstarts, skipComment_unclosed hbody, scanFrom]

/-- A scan that stops at the first part that must not stand where it stands, and whose words are
    the runs in front of it. -/
structure Scan.ReadAs (found : Scan) (parts : List Part) : Prop where
  accepted : found.stray = none ↔ ∀ part ∈ parts, part.isStray = false
  words : found.lexemes.map (fun x => x.text.toList)
    = (parts.takeWhile fun part => !part.isStray).filterMap Part.word?

/-- A part that is not a word and may stand where it stands does not show. -/
theorem Scan.ReadAs.skip {found : Scan} {parts : List Part} {part : Part}
    (h : found.ReadAs parts) (hstray : part.isStray = false) (hword : part.word? = none) :
    found.ReadAs (part :: parts) := by
  constructor
  · rw [h.accepted, List.forall_mem_cons]
    simp [hstray]
  · rw [h.words, List.takeWhile_cons_of_pos (by simp [hstray]), List.filterMap_cons_none hword]

theorem Scan.ReadAs.word {found : Scan} {parts : List Part} {run : List Char} {x : Lexeme}
    (h : found.ReadAs parts) (hx : x.text = String.ofList run) :
    Scan.ReadAs { found with lexemes := x :: found.lexemes } (.word run :: parts) := by
  constructor
  · rw [h.accepted, List.forall_mem_cons]
    simp [Part.isStray]
  · rw [List.takeWhile_cons_of_pos (by rfl), List.map_cons, h.words, hx, String.toList_ofList]
    rfl

/-- Scanning reads a text as its parts, however it is cut. -/
theorem Parts.readAs {s : List Char} {parts : List Part} (h : Parts s parts) (p : Position) :
    (scanFrom p s).ReadAs parts := by
  induction h generalizing p with
  | done =>
    rw [scanFrom]
    exact ⟨by simp, rfl⟩
  | @blank c s parts hblank _ ih =>
    rw [scanFrom_blank hblank, scanBehind]
    cases hskip : isSkippable c with
    | false => exact ⟨by simp [Part.isStray, hskip], by simp [Part.isStray, hskip]⟩
    | true => exact (ih (p.after c)).skip (by simp [Part.isStray, hskip]) rfl
  | word hr hne hopens hs _ ih =>
    rw [scanFrom_word hr hne hopens hs]
    exact (ih _).word rfl
  | closed hstarts hbody hb hs _ ih =>
    obtain ⟨q, hq⟩ := scanFrom_closed hstarts hbody hb hs p
    rw [hq]
    exact (ih q).skip rfl rfl
  | unclosed hstarts hbody =>
    rw [scanFrom_unclosed hstarts hbody]
    exact ⟨by simp [Part.isStray], rfl⟩

/-! ## Kinds of runs -/

/-- What the kind of a run says about its characters, and they about the kind: a keyword is one of
    the words of its kind, a number fits the pattern of numerals and can be read, a symbol is a
    quote and at least one more character, and a word is any other run. -/
structure Kind.Describes (kind : Kind) (run : List Char) : Prop where
  keyword : ∀ other ∈ keywordKinds, kind = other ↔ String.ofList run ∈ other.spellings
  number : kind = .number ↔ Pattern.numeral.Fits none run []
  readable : kind = .number → ∃ x, Double.read? run = some x
  symbol : kind = .symbol ↔ ∃ c rest, run = singleQuote :: c :: rest
  word : kind = .word ↔ (∀ other ∈ keywordKinds, String.ofList run ∉ other.spellings)
    ∧ ¬Pattern.numeral.Fits none run [] ∧ ¬∃ c rest, run = singleQuote :: c :: rest

/-- No keyword is a numeral or starts with a quote. -/
theorem not_keyword {run : List Char} (h : Double.isNumeral run = true ∨ run.head? = some singleQuote)
    (kind : Kind) : String.ofList run ∉ kind.spellings := by
  have hplain : ∀ word ∈ kind.spellings,
      Double.isNumeral word.toList = false ∧ word.toList.head? ≠ some singleQuote := by
    cases kind <;> decide
  intro hmem
  have hword := hplain _ hmem
  rw [String.toList_ofList] at hword
  rcases h with h | h
  · rw [h] at hword
    exact nomatch hword.1
  · exact hword.2 h

/-- No numeral starts with a quote. -/
theorem isNumeral_quote (rest : List Char) : Double.isNumeral (singleQuote :: rest) = false := by
  rw [Bool.eq_false_iff]
  intro h
  have hchar := List.all_eq_true.mp (Double.all_of_isNumeral h) singleQuote (List.mem_cons_self ..)
  exact absurd hchar (by decide)

theorem keywordKinds_ne :
    ∀ kind ∈ keywordKinds, kind ≠ .number ∧ kind ≠ .symbol ∧ kind ≠ .word := by
  decide

theorem describes_keyword {run : List Char} {kind : Kind}
    (h : keywordKind? (String.ofList run) = some kind) : kind.Describes run := by
  have hspelled := keywordKind?_eq_some_iff.mp h
  have hkind : kind ∈ keywordKinds := by
    rw [keywordKind?_eq_find?] at h
    exact List.mem_of_find?_eq_some h
  obtain ⟨hnumber, hsymbol, hword⟩ := keywordKinds_ne kind hkind
  have hnumeral : ¬Pattern.numeral.Fits none run [] := fun hfits =>
    not_keyword (.inl ((Double.fits_numeral_iff _ _).mp hfits)) kind hspelled
  have hquote : ¬∃ c rest, run = singleQuote :: c :: rest := by
    rintro ⟨c, rest, rfl⟩
    exact not_keyword (.inr rfl) kind hspelled
  refine ⟨fun other _ => ?_, iff_of_false hnumber hnumeral, fun hcase => absurd hcase hnumber,
    iff_of_false hsymbol hquote, iff_of_false hword fun hall => hall.1 kind hkind hspelled⟩
  rw [← keywordKind?_eq_some_iff, h, Option.some.injEq]

section

variable {run : List Char} (hspelled : ∀ kind : Kind, String.ofList run ∉ kind.spellings)

include hspelled

theorem keyword_iff_of_not_spelled {kind : Kind} (hkind : kind ∉ keywordKinds) :
    ∀ other ∈ keywordKinds, kind = other ↔ String.ofList run ∈ other.spellings := by
  intro other hother
  refine iff_of_false ?_ (hspelled other)
  rintro rfl
  exact hkind hother

theorem describes_number (hnumeral : Double.isNumeral run = true) :
    Kind.Describes .number run := by
  have hfits := (Double.fits_numeral_iff none []).mpr hnumeral
  have hquote : ¬∃ c rest, run = singleQuote :: c :: rest := by
    rintro ⟨c, rest, rfl⟩
    rw [isNumeral_quote] at hnumeral
    cases hnumeral
  obtain ⟨numeral, _, hread⟩ := Double.read?_of_isNumeral hnumeral
  exact ⟨keyword_iff_of_not_spelled hspelled (by decide), iff_of_true rfl hfits,
    fun _ => ⟨numeral.value, hread⟩, iff_of_false nofun hquote,
    iff_of_false nofun fun hword => hword.2.1 hfits⟩

theorem describes_symbol (hquote : ∃ c rest, run = singleQuote :: c :: rest) :
    Kind.Describes .symbol run := by
  have hfits : ¬Pattern.numeral.Fits none run [] := by
    obtain ⟨c, rest, rfl⟩ := hquote
    rw [Double.fits_numeral_iff, isNumeral_quote]
    exact nofun
  exact ⟨keyword_iff_of_not_spelled hspelled (by decide), iff_of_false nofun hfits, nofun,
    iff_of_true rfl hquote, iff_of_false nofun fun hword => hword.2.2 hquote⟩

theorem describes_word (hnumeral : Double.isNumeral run = false)
    (hquote : ¬∃ c rest, run = singleQuote :: c :: rest) : Kind.Describes .word run := by
  have hfits : ¬Pattern.numeral.Fits none run [] := by
    rw [Double.fits_numeral_iff, hnumeral]
    exact nofun
  exact ⟨keyword_iff_of_not_spelled hspelled (by decide), iff_of_false nofun hfits, nofun,
    iff_of_false nofun hquote, iff_of_true rfl ⟨fun other _ => hspelled other, hfits, hquote⟩⟩

end

/-- The kind of a run is the one that describes it. -/
theorem describes_kindOf (run : List Char) : (kindOf run).Describes run := by
  unfold kindOf
  cases hkeyword : keywordKind? (String.ofList run) with
  | some kind => exact describes_keyword hkeyword
  | none =>
    have hspelled : ∀ kind : Kind, String.ofList run ∉ kind.spellings := by
      intro kind hmem
      rw [keywordKind?_eq_some_iff.mpr hmem] at hkeyword
      cases hkeyword
    dsimp only
    split
    · rename_i hnumeral
      exact describes_number hspelled hnumeral
    · rename_i hnumeral
      rw [Bool.not_eq_true] at hnumeral
      split
      · rename_i first c rest
        split
        · rename_i hfirst
          exact describes_symbol hspelled ⟨c, rest, by rw [hfirst]⟩
        · rename_i hfirst
          refine describes_word hspelled hnumeral ?_
          rintro ⟨_, _, hrun⟩
          exact hfirst (List.cons.inj hrun).1
      · rename_i hshort
        refine describes_word hspelled hnumeral ?_
        rintro ⟨c, rest, hrun⟩
        exact hshort _ _ _ hrun

/-! ## Scanning and splitting -/

/-- Scanning is splitting at blanks with comments left out, and it is what the terminals of the
    language find.  It fails at a blank outside of comments that must not stand between words,
    and otherwise its words are the runs outside of comments, each of the kind that describes it. -/
theorem scan_splits_at_blanks (source : String) :
    (∀ words stop, Lexes none source.toList words stop
      ↔ words = (scan source).lexemes.map Lexeme.pair
        ∧ stop = (scan source).stray.map Stray.char)
    ∧ (∃ parts, Parts source.toList parts)
    ∧ (∀ parts, Parts source.toList parts →
        ((scan source).stray ≠ none
          ↔ ∃ c, .blank c ∈ parts ∧ c ∉ [' ', '\t', '\x0c', '\r', '\n'])
        ∧ ((scan source).stray = none →
            (scan source).lexemes.map (fun x => x.text.toList) = parts.filterMap Part.word?))
    ∧ ∀ x ∈ (scan source).lexemes,
        x.kind = kindOf x.text.toList ∧ x.kind.Describes x.text.toList := by
  refine ⟨fun words stop => lexes_iff_scan, exists_parts source.toList, ?_, ?_⟩
  · intro parts hparts
    have hread := hparts.readAs .start
    have hstray : (scan source).stray ≠ none ↔ ∃ part ∈ parts, part.isStray = true := by
      rw [Ne, scan, hread.accepted]
      simp
    constructor
    · simp only [hstray, Part.isStray_iff]
      grind
    · intro haccepted
      have hplain := hread.accepted.mp haccepted
      rw [scan, hread.words, List.takeWhile_eq_self_iff.mpr]
      exact fun part hpart => by rw [hplain part hpart]; rfl
  · intro x hx
    have hkind : x.kind = kindOf x.text.toList := genuine_of_mem_scan hx
    refine ⟨hkind, ?_⟩
    rw [hkind]
    exact describes_kindOf x.text.toList

/-- Words around a comment. -/
theorem scan_splits_around_comment :
    Parts "1 < a > dup".toList
      [.word ['1'], .blank ' ', .comment ['<', ' ', 'a', ' ', '>'], .blank ' ',
        .word ['d', 'u', 'p']]
    ∧ (scan "1 < a > dup").lexemes.map (fun x => x.text.toList) = [['1'], ['d', 'u', 'p']] := by
  have hstarts : EndsRun [' ', 'a'] := rfl
  have hparts : Parts "1 < a > dup".toList
      [.word ['1'], .blank ' ', .comment ['<', ' ', 'a', ' ', '>'], .blank ' ',
        .word ['d', 'u', 'p']] :=
    .word (r := ['1']) (by decide) (by decide) (by decide) rfl
      (.blank rfl
        (.closed hstarts (b := ' ') (by decide) rfl rfl
          (.blank rfl
            (.word (r := ['d', 'u', 'p']) (by decide) (by decide) (by decide) rfl .done))))
  obtain ⟨hstray, hwords⟩ := (scan_splits_at_blanks "1 < a > dup").2.2.1 _ hparts
  refine ⟨hparts, hwords (by_contra fun hne => ?_)⟩
  obtain ⟨c, hblank, hc⟩ := hstray.mp hne
  have hspace : c = ' ' := by simpa using hblank
  exact hc (by simp [hspace])

end StackCalc
