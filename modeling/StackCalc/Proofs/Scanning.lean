/-
  StackCalc.Proofs.Scanning

  Reading a text piece by piece.  A text consists of runs of characters with single blanks
  between them (`runInduction`), and one run and the blank behind it decide what is read
  there and whether a comment is open behind them (`scanWithin_piece`).  So a text that is cut
  at a blank is read in two parts (`scanWithin_append`), of which the second has to know only
  whether a comment is open, and its words do not depend on where it stands.
-/

import StackCalc.Token.Lexer

namespace StackCalc

open StackCalc.Text

/-! ## Runs -/

/-- What stands between the blanks of a text, also where nothing stands between two of them. -/
def runs (s : List Char) : List (List Char) := s.splitOnP isBlank

/-- Whether a comment is open behind a run, if one is or is not open in front of it. -/
def opens (inside : Bool) (run : List Char) : Bool :=
  if inside then run ≠ ['>'] else run = ['<']

/-- Whether a comment is open at the end of a text that starts inside or outside of one. -/
def staysInside (inside : Bool) (s : List Char) : Bool :=
  (runs s).foldl opens inside

/-- Whether a text ends in a comment that nothing closes. -/
def endsInComment (source : String) : Bool := staysInside false source.toList

/-- A text without blanks. -/
def IsRun (r : List Char) : Prop := ∀ c ∈ r, isBlank c = false

-- Named: the search may find the instance for a finite type, which tries every character.
instance (r : List Char) : Decidable (IsRun r) :=
  List.decidableBAll (fun c => isBlank c = false) r

variable {r s t : List Char} {b c : Char} {inside : Bool}

theorem IsRun.isInk (h : IsRun r) : ∀ c ∈ r, isInk c = true :=
  fun c hc => by rw [StackCalc.isInk, h c hc]; rfl

theorem runs_run (h : IsRun r) : runs r = [r] :=
  List.splitOnP_eq_singleton h

theorem runs_append (hb : isBlank b = true) (s t : List Char) :
    runs (s ++ b :: t) = runs s ++ runs t :=
  List.splitOnP_append_cons s t hb

theorem staysInside_run (h : IsRun r) : staysInside inside r = opens inside r := by
  rw [staysInside, runs_run h, List.foldl_cons, List.foldl_nil]

theorem staysInside_append (hb : isBlank b = true) (s t : List Char) :
    staysInside inside (s ++ b :: t) = staysInside (staysInside inside s) t := by
  rw [staysInside, runs_append hb, List.foldl_append]
  rfl

theorem staysInside_piece (h : IsRun r) (hb : isBlank b = true) (t : List Char) :
    staysInside inside (r ++ b :: t) = staysInside (opens inside r) t := by
  rw [staysInside_append hb, staysInside_run h]

/-- A text is a run, or a run with a blank and a text behind it. -/
theorem run_cases (s : List Char) :
    IsRun s ∨ ∃ r b t, s = r ++ b :: t ∧ IsRun r ∧ isBlank b = true := by
  induction s with
  | nil => exact .inl nofun
  | cons c s ih =>
    by_cases hc : isBlank c = true
    · exact .inr ⟨[], c, s, rfl, nofun, hc⟩
    · rw [Bool.not_eq_true] at hc
      obtain hs | ⟨r, b, t, rfl, hr, hb⟩ := ih
      · exact .inl (List.forall_mem_cons.mpr ⟨hc, hs⟩)
      · exact .inr ⟨c :: r, b, t, rfl, List.forall_mem_cons.mpr ⟨hc, hr⟩, hb⟩

/-- Induction over the runs of a text. -/
theorem runInduction {motive : List Char → Prop} (run : ∀ r, IsRun r → motive r)
    (piece : ∀ r b t, IsRun r → isBlank b = true → motive t → motive (r ++ b :: t))
    (s : List Char) : motive s := by
  induction hn : s.length using Nat.strongRecOn generalizing s with
  | ind n ih =>
    obtain hs | ⟨r, b, t, rfl, hr, hb⟩ := run_cases s
    · exact run s hs
    · -- What is left behind the first blank is shorter than the text.
      refine piece r b t hr hb (ih t.length ?_ t rfl)
      rw [List.length_append, List.length_cons] at hn
      omega

/-! ## Runs and the scanner -/

theorem takeWhile_run (h : IsRun r) : r.takeWhile isInk = r := by
  rw [← List.append_nil r, List.takeWhile_append_of_pos h.isInk, List.takeWhile_nil]

theorem dropWhile_run (h : IsRun r) : r.dropWhile isInk = [] := by
  rw [← List.append_nil r, List.dropWhile_append_of_pos h.isInk, List.dropWhile_nil]

theorem takeWhile_piece (h : IsRun r) (hb : isBlank b = true) (t : List Char) :
    (r ++ b :: t).takeWhile isInk = r := by
  have hink : ¬isInk b = true := by rw [isInk, hb]; simp
  rw [List.takeWhile_append_of_pos h.isInk, List.takeWhile_cons_of_neg hink, List.append_nil]

theorem dropWhile_piece (h : IsRun r) (hb : isBlank b = true) (t : List Char) :
    (r ++ b :: t).dropWhile isInk = b :: t := by
  have hink : ¬isInk b = true := by rw [isInk, hb]; simp
  rw [List.dropWhile_append_of_pos h.isInk, List.dropWhile_cons_of_neg hink]

/-- The position behind some characters, the first of which is given. -/
theorem Position.afterAll_cons (p : Position) (c : Char) (s : List Char) :
    p.afterAll (c :: s) = (p.after c).afterAll s := rfl

/-- Inside a run that does not close the comment nothing closes it. -/
theorem skipComment_run (h : IsRun r) (p : Position) :
    skipComment false p r = (p.afterAll r, []) := by
  induction r generalizing p with
  | nil => rfl
  | cons c r ih =>
    have hc := List.forall_mem_cons.mp h
    rw [skipComment, hc.1, Position.afterAll_cons, ← ih hc.2]
    rfl

theorem skipComment_piece (h : IsRun r) (hb : isBlank b = true) (p : Position) (t : List Char) :
    skipComment false p (r ++ b :: t) = skipComment true (p.afterAll (r ++ [b])) t := by
  induction r generalizing p with
  | nil =>
    rw [List.nil_append, skipComment, hb]
    rfl
  | cons c r ih =>
    have hc := List.forall_mem_cons.mp h
    rw [List.cons_append, skipComment, hc.1, List.cons_append, Position.afterAll_cons, ← ih hc.2]
    rfl

/-- Only a run that is just the closing bracket closes a comment. -/
theorem skipComment_ink (hr : IsRun (c :: r)) (hopen : c :: r ≠ ['>']) (p : Position)
    (t : List Char) : skipComment true p (c :: r ++ t) = skipComment false p (c :: r ++ t) := by
  have hstays : ¬((true && decide (c = '>') && (r ++ t).head?.all isBlank) = true) := by
    rw [Bool.true_and, Bool.and_eq_true, decide_eq_true_eq]
    rintro ⟨rfl, hend⟩
    cases r with
    | nil => exact hopen rfl
    | cons d r =>
      have hd := hr d (by simp)
      rw [List.cons_append, List.head?_cons, Option.all_some, hd] at hend
      cases hend
  rw [List.cons_append, skipComment, skipComment, if_neg hstays, if_neg (by simp)]

/-! ## Reading inside and outside of comments -/

/-- The words of a text that starts inside or outside of a comment, at a position where a
    run can start. -/
def scanWithin (inside : Bool) (p : Position) (s : List Char) : Scan :=
  if inside then
    let left := skipComment true p s
    scanFrom left.1 left.2
  else scanFrom p s

/-- The word that a run makes up: none inside a comment or if it opens one. -/
def wordAt (inside : Bool) (p : Position) (run : List Char) : List Lexeme :=
  if inside ∨ run = [] ∨ run = ['<'] then []
  else [⟨kindOf run, String.ofList run, p.line, p.column⟩]

/-- What is read from a blank on: outside of comments a blank that must not stand there ends
    the reading. -/
def scanBehind (inside : Bool) (p : Position) (b : Char) (t : List Char) : Scan :=
  if !inside && !isSkippable b then ⟨[], some ⟨b, p⟩⟩ else scanWithin inside (p.after b) t

theorem scanBehind_skippable (hb : isSkippable b = true) (inside : Bool) (p : Position)
    (t : List Char) : scanBehind inside p b t = scanWithin inside (p.after b) t := by
  rw [scanBehind, if_neg (by simp [hb])]

/-- What is read first and what is read behind it, unless the reading has ended. -/
def Scan.andThen (first second : Scan) : Scan :=
  match first.stray with
  | some _ => first
  | none => { second with lexemes := first.lexemes ++ second.lexemes }

theorem Scan.andThen_assoc (first second third : Scan) :
    (first.andThen second).andThen third = first.andThen (second.andThen third) := by
  obtain ⟨xs, _ | stray⟩ := first
  · obtain ⟨ys, _ | stray⟩ := second
    · simp only [andThen, List.append_assoc]
    · rfl
  · rfl

/-- No run makes up a word inside of a comment. -/
theorem wordAt_inside (p : Position) (run : List Char) : wordAt true p run = [] := by
  simp [wordAt]

theorem not_isSkippable (hc : isBlank c = false) : ¬isSkippable c = true := by
  intro hskip
  rw [isBlank_of_isSkippable hskip] at hc
  cases hc

/-- Outside of comments a blank is skipped, or the reading ends there. -/
theorem scanFrom_blank (hb : isBlank b = true) (p : Position) (t : List Char) :
    scanFrom p (b :: t) = scanBehind false p b t := by
  rw [scanFrom, scanBehind, if_pos hb]
  cases isSkippable b <;> rfl

theorem scanFrom_run (h : IsRun r) (p : Position) : scanFrom p r = ⟨wordAt false p r, none⟩ := by
  cases r with
  | nil => rw [scanFrom]; rfl
  | cons c r =>
    obtain ⟨hc, hr⟩ := List.forall_mem_cons.mp h
    rw [scanFrom, if_neg (not_isSkippable hc), if_neg (by simp [hc]), takeWhile_run hr,
      dropWhile_run hr]
    by_cases hopens : c :: r = ['<']
    · rw [if_pos hopens, hopens]
      simp only [skipComment, wordAt]
      rw [scanFrom]
      rfl
    · rw [if_neg hopens, scanFrom]
      simp [wordAt, hopens]

/-- What is read in a run and behind it, outside of comments. -/
theorem scanFrom_piece (h : IsRun r) (hb : isBlank b = true) (p : Position) (t : List Char) :
    scanFrom p (r ++ b :: t)
      = Scan.andThen ⟨wordAt false p r, none⟩ (scanBehind (opens false r) (p.afterAll r) b t) := by
  cases r with
  | nil => exact scanFrom_blank hb p t
  | cons c r =>
    obtain ⟨hc, hr⟩ := List.forall_mem_cons.mp h
    rw [List.cons_append, scanFrom, if_neg (not_isSkippable hc), if_neg (by simp [hc]),
      takeWhile_piece hr hb, dropWhile_piece hr hb]
    by_cases hopens : c :: r = ['<']
    · -- The blank belongs to the comment, and a run can start behind it.
      have hcomment : skipComment false (p.after c) (b :: t)
          = skipComment true ((p.after c).after b) t :=
        skipComment_piece (List.forall_mem_nil _) hb _ t
      simp only [if_pos hopens, hcomment]
      obtain ⟨rfl, rfl⟩ := List.cons.inj hopens
      rfl
    · have hword : wordAt false p (c :: r)
          = [⟨kindOf (c :: r), String.ofList (c :: r), p.line, p.column⟩] := by
        simp [wordAt, hopens]
      have hstill : opens false (c :: r) = false := by simp [opens, hopens]
      simp only [if_neg hopens, scanFrom_blank hb, hword, hstill]
      rfl

/-- A run by itself makes up one word at most. -/
theorem scanWithin_run (h : IsRun r) (inside : Bool) (p : Position) :
    scanWithin inside p r = ⟨wordAt inside p r, none⟩ := by
  cases inside with
  | false => exact scanFrom_run h p
  | true =>
    have hend : ∀ q, scanFrom q [] = ⟨[], none⟩ := fun q => by rw [scanFrom]
    rw [wordAt_inside]
    cases r with
    | nil => exact hend p
    | cons c r =>
      by_cases hcloses : c :: r = ['>']
      · rw [hcloses]
        exact hend (p.after '>')
      · -- The comment goes on to the end of the text.
        have hskip := skipComment_ink h hcloses p []
        rw [List.append_nil, skipComment_run h] at hskip
        rw [scanWithin, if_pos rfl, hskip, hend]

/-- A run and the blank behind it: the word that the run makes up, and what is read from the
    blank on, where the run may have opened or closed a comment. -/
theorem scanWithin_piece (h : IsRun r) (hb : isBlank b = true) (inside : Bool) (p : Position)
    (t : List Char) :
    scanWithin inside p (r ++ b :: t)
      = Scan.andThen ⟨wordAt inside p r, none⟩
          (scanBehind (opens inside r) (p.afterAll r) b t) := by
  cases inside with
  | false => exact scanFrom_piece h hb p t
  | true =>
    have hbehind : ∀ scan : Scan, Scan.andThen ⟨[], none⟩ scan = scan := fun _ => rfl
    rw [wordAt_inside, hbehind]
    cases r with
    | nil =>
      have hclose : ¬(true && b = '>' && t.head?.all isBlank) = true := by
        intro hclose
        simp only [Bool.true_and, Bool.and_eq_true, decide_eq_true_eq] at hclose
        rw [hclose.1] at hb
        exact absurd hb (by decide)
      rw [List.nil_append, scanWithin, if_pos rfl, skipComment, if_neg hclose, hb]
      rfl
    | cons c r =>
      by_cases hcloses : c :: r = ['>']
      · -- The comment is closed in front of the blank, which is read outside of it.
        obtain ⟨rfl, rfl⟩ := List.cons.inj hcloses
        have hskip : skipComment true p ('>' :: b :: t) = (p.after '>', b :: t) := by
          rw [skipComment, if_pos (by simp [hb])]
        rw [List.cons_append, List.nil_append, scanWithin, if_pos rfl, hskip]
        exact scanFrom_blank hb _ t
      · have hstill : opens true (c :: r) = true := by simp [opens, hcloses]
        rw [scanWithin, if_pos rfl, skipComment_ink h hcloses, skipComment_piece h hb, hstill,
          Position.afterAll_append]
        rfl

/-! ## Runs in front of a text -/

/-- A text in front of which a run ends. -/
def EndsRun (t : List Char) : Prop := t.head?.all isBlank = true

theorem endsRun_iff : EndsRun t ↔ t.head?.any isInk = false := by
  rw [EndsRun]
  cases t <;> simp [isInk]

theorem endsRun_cons (hb : isBlank b = true) (t : List Char) : EndsRun (b :: t) := hb

theorem takeWhile_isInk (hr : IsRun r) (ht : EndsRun t) : (r ++ t).takeWhile isInk = r := by
  cases t with
  | nil => rw [List.append_nil, takeWhile_run hr]
  | cons b t => exact takeWhile_piece hr ht t

theorem dropWhile_isInk (hr : IsRun r) (ht : EndsRun t) : (r ++ t).dropWhile isInk = t := by
  cases t with
  | nil => rw [List.append_nil, dropWhile_run hr]
  | cons b t => exact dropWhile_piece hr ht t

/-- There is one place where the run in front of a text ends. -/
theorem run_unique {r' t' : List Char} (hr : IsRun r) (ht : EndsRun t) (hr' : IsRun r')
    (ht' : EndsRun t') (h : r ++ t = r' ++ t') : r = r' ∧ t = t' := by
  constructor
  · rw [← takeWhile_isInk hr ht, h, takeWhile_isInk hr' ht']
  · rw [← dropWhile_isInk hr ht, h, dropWhile_isInk hr' ht']

theorem exists_run (s : List Char) : ∃ r t, s = r ++ t ∧ IsRun r ∧ EndsRun t := by
  obtain hs | ⟨r, b, t, rfl, hr, hb⟩ := run_cases s
  · exact ⟨s, [], (List.append_nil s).symm, hs, rfl⟩
  · exact ⟨r, b :: t, rfl, hr, hb⟩

/-- Induction in the order of scanning: behind a blank and behind the bracket of a comment
    anything that is left may be next, and behind any other run what follows it. -/
theorem scanInduction {motive : List Char → Prop} (nil : motive [])
    (blank : ∀ b s, isBlank b = true → (∀ rest, rest.length ≤ s.length → motive rest) →
      motive (b :: s))
    (word : ∀ r t, IsRun r → r ≠ [] → r ≠ ['<'] → EndsRun t → motive t → motive (r ++ t))
    (comment : ∀ t, EndsRun t → (∀ rest, rest.length ≤ t.length → motive rest) →
      motive ('<' :: t))
    (s : List Char) : motive s := by
  induction hn : s.length using Nat.strongRecOn generalizing s with
  | ind n ih =>
    obtain ⟨r, t, rfl, hr, ht⟩ := exists_run s
    rw [List.length_append] at hn
    by_cases hnil : r = []
    · subst hnil
      cases t with
      | nil => exact nil
      | cons b t =>
        rw [List.length_nil, List.length_cons] at hn
        exact blank b t ht fun rest hrest => ih rest.length (by omega) rest rfl
    · have hpositive := List.length_pos_iff.mpr hnil
      by_cases hopens : r = ['<']
      · subst hopens
        exact comment t ht fun rest hrest => ih rest.length (by omega) rest rfl
      · exact word r t hr hnil hopens ht (ih t.length (by omega) t rfl)

/-- The run in front of a text is its first word, unless it opens a comment. -/
theorem scanFrom_word (hr : IsRun r) (hne : r ≠ []) (hopens : r ≠ ['<']) (ht : EndsRun t)
    (p : Position) :
    scanFrom p (r ++ t)
      = { scanFrom (p.afterAll r) t with
          lexemes := ⟨kindOf r, String.ofList r, p.line, p.column⟩
            :: (scanFrom (p.afterAll r) t).lexemes } := by
  obtain ⟨c, r, rfl⟩ := List.exists_cons_of_ne_nil hne
  obtain ⟨hc, hr⟩ := List.forall_mem_cons.mp hr
  rw [List.cons_append, scanFrom, if_neg (not_isSkippable hc), if_neg (by simp [hc])]
  simp only [takeWhile_isInk hr ht, dropWhile_isInk hr ht, if_neg hopens]

/-- Behind a run that opens a comment the reading goes on where the comment is closed. -/
theorem scanFrom_comment (ht : EndsRun t) (p : Position) :
    scanFrom p ('<' :: t)
      = scanFrom (skipComment false (p.after '<') t).1 (skipComment false (p.after '<') t).2 := by
  have htake := takeWhile_isInk (r := []) nofun ht
  have hdrop := dropWhile_isInk (r := []) nofun ht
  rw [List.nil_append] at htake hdrop
  rw [scanFrom, if_neg (by decide), if_neg (by decide), htake, hdrop]
  simp only [if_true]

/-! ## Texts in two parts -/

theorem scanBehind_append {inside inside' : Bool} {p q : Position} {b b' : Char}
    {s t : List Char}
    (h : scanWithin inside (p.after b) (s ++ b' :: t)
      = (scanWithin inside (p.after b) s).andThen (scanBehind inside' q b' t)) :
    scanBehind inside p b (s ++ b' :: t)
      = (scanBehind inside p b s).andThen (scanBehind inside' q b' t) := by
  unfold scanBehind at h ⊢
  split
  · rfl
  · exact h

/-- A text that is cut at a blank is read up to the blank and then from the blank on, where a
    comment may be open. -/
theorem scanWithin_append (hb : isBlank b = true) (inside : Bool) (p : Position)
    (s t : List Char) :
    scanWithin inside p (s ++ b :: t)
      = (scanWithin inside p s).andThen
          (scanBehind (staysInside inside s) (p.afterAll s) b t) := by
  induction s using runInduction generalizing inside p with
  | run r hr => rw [scanWithin_piece hr hb, scanWithin_run hr, staysInside_run hr]
  | piece r c s hr hc ih =>
    have hrest := scanBehind_append (ih (opens inside r) ((p.afterAll r).after c))
    rw [List.append_assoc, List.cons_append, scanWithin_piece hr hc, scanWithin_piece hr hc,
      hrest, Scan.andThen_assoc, staysInside_piece hr hc, Position.afterAll_append]
    rfl

/-! ## Words without their places -/

/-- A word without its place. -/
def Lexeme.unplaced (x : Lexeme) : Lexeme := { x with line := 0, column := 0 }

/-- Two readings with the same words, but for their places, which both end at a blank that
    must not stand where it stands or both do not. -/
structure Scan.Resembles (first second : Scan) : Prop where
  words : first.lexemes.map Lexeme.unplaced = second.lexemes.map Lexeme.unplaced
  stray : first.stray = none ↔ second.stray = none

theorem Scan.Resembles.andThen {first first' second second' : Scan}
    (h : first.Resembles first') (h' : second.Resembles second') :
    (first.andThen second).Resembles (first'.andThen second') := by
  simp only [Scan.andThen]
  cases hstray : first.stray with
  | none =>
    rw [h.stray.mp hstray]
    refine ⟨?_, h'.stray⟩
    rw [List.map_append, List.map_append, h.words, h'.words]
  | some stray =>
    cases hstray' : first'.stray with
    | none =>
      rw [h.stray.mpr hstray'] at hstray
      cases hstray
    | some stray' => exact h

/-- Where a text stands only shows in the places of its words. -/
theorem scanWithin_resembles (inside : Bool) (p q : Position) (s : List Char) :
    (scanWithin inside p s).Resembles (scanWithin inside q s) := by
  have hword : ∀ inside r p q,
      Scan.Resembles ⟨wordAt inside p r, none⟩ ⟨wordAt inside q r, none⟩ := by
    intro inside r p q
    refine ⟨?_, .rfl⟩
    simp only [wordAt]
    split <;> rfl
  induction s using runInduction generalizing inside p q with
  | run r hr =>
    rw [scanWithin_run hr, scanWithin_run hr]
    exact hword inside r p q
  | piece r b t hr hb ih =>
    rw [scanWithin_piece hr hb, scanWithin_piece hr hb]
    refine (hword inside r p q).andThen ?_
    simp only [scanBehind]
    split
    · exact ⟨rfl, by simp⟩
    · exact ih ..

/-! ## Texts with a blank between them -/

/-- The words of a text up to the first stray blank, without their places. -/
def bareWords (source : String) : List Lexeme :=
  (scan source).lexemes.map Lexeme.unplaced

theorem kinds_bareWords (source : String) :
    (bareWords source).map Lexeme.kind = (scan source).lexemes.map Lexeme.kind := by
  rw [bareWords, List.map_map]
  rfl

section

variable {first second sep : String} {b : Char}

theorem toList_joined (hsep : sep.toList = [b]) (first second : String) :
    (first ++ sep ++ second).toList = first.toList ++ b :: second.toList := by
  rw [String.toList_append, String.toList_append, List.append_assoc, hsep]
  rfl

/-- Behind a blank that may stand between words a text is read inside of a comment if the text
    in front of it ends in one. -/
theorem scan_joined (hsep : sep.toList = [b]) (hb : isSkippable b = true) (first second : String) :
    scan (first ++ sep ++ second)
      = (scan first).andThen (scanWithin (endsInComment first)
          ((Position.start.afterAll first.toList).after b) second.toList) := by
  have hjoint : scan (first ++ sep ++ second)
      = scanWithin false .start (first ++ sep ++ second).toList := rfl
  rw [hjoint, toList_joined hsep, scanWithin_append (isBlank_of_isSkippable hb),
    scanBehind_skippable hb]
  rfl

theorem endsInComment_joined (hsep : sep.toList = [b]) (hb : isSkippable b = true)
    (first second : String) :
    endsInComment (first ++ sep ++ second)
      = staysInside (endsInComment first) second.toList := by
  rw [endsInComment, toList_joined hsep, staysInside_append (isBlank_of_isSkippable hb)]
  rfl

/-- Behind a text that closes its comments, a text is read as it is by itself. -/
theorem scan_joined_resembles (hsep : sep.toList = [b]) (hb : isSkippable b = true)
    (hclosed : endsInComment first = false) (second : String) :
    ∃ behind, scan (first ++ sep ++ second) = (scan first).andThen behind
      ∧ behind.Resembles (scan second) := by
  refine ⟨_, scan_joined hsep hb first second, ?_⟩
  rw [hclosed]
  exact scanWithin_resembles false ..

theorem stray_joined (hsep : sep.toList = [b]) (hb : isSkippable b = true)
    (hclosed : endsInComment first = false) :
    (scan (first ++ sep ++ second)).stray = none
      ↔ (scan first).stray = none ∧ (scan second).stray = none := by
  obtain ⟨behind, hscan, hbehind⟩ := scan_joined_resembles hsep hb hclosed second
  rw [hscan, ← hbehind.stray, Scan.andThen]
  split
  · rename_i stray hstray
    simp [hstray]
  · rename_i hstray
    simp [hstray]

/-- The words in front come first, where they are, and the words behind them. -/
theorem lexemes_joined (hsep : sep.toList = [b]) (hb : isSkippable b = true)
    (hclosed : endsInComment first = false) (hstray : (scan first).stray = none)
    (second : String) :
    ∃ behind, (scan (first ++ sep ++ second)).lexemes = (scan first).lexemes ++ behind
      ∧ behind.map Lexeme.unplaced = bareWords second := by
  obtain ⟨behind, hscan, hbehind⟩ := scan_joined_resembles hsep hb hclosed second
  refine ⟨behind.lexemes, ?_, hbehind.words⟩
  rw [hscan, Scan.andThen, hstray]

theorem bareWords_joined (hsep : sep.toList = [b]) (hb : isSkippable b = true)
    (hclosed : endsInComment first = false) (hstray : (scan first).stray = none) :
    bareWords (first ++ sep ++ second) = bareWords first ++ bareWords second := by
  obtain ⟨behind, hlexemes, hbehind⟩ := lexemes_joined hsep hb hclosed hstray second
  rw [bareWords, hlexemes, List.map_append, hbehind]
  rfl

/-! ## Lines -/

/-- Below a text is read inside of a comment if the text ends in one. -/
theorem scan_line (first second : String) :
    scan (first ++ "\n" ++ second)
      = (scan first).andThen (scanWithin (endsInComment first)
          ((Position.start.afterAll first.toList).after '\n') second.toList) :=
  scan_joined rfl (by decide) first second

theorem endsInComment_line (first second : String) :
    endsInComment (first ++ "\n" ++ second)
      = staysInside (endsInComment first) second.toList :=
  endsInComment_joined rfl (by decide) first second

theorem stray_line (hclosed : endsInComment first = false) :
    (scan (first ++ "\n" ++ second)).stray = none
      ↔ (scan first).stray = none ∧ (scan second).stray = none :=
  stray_joined rfl (by decide) hclosed

/-- The words above come first, where they are, and the words below behind them. -/
theorem lexemes_line (hclosed : endsInComment first = false)
    (hstray : (scan first).stray = none) (second : String) :
    ∃ below, (scan (first ++ "\n" ++ second)).lexemes = (scan first).lexemes ++ below
      ∧ below.map Lexeme.unplaced = bareWords second :=
  lexemes_joined rfl (by decide) hclosed hstray second

theorem bareWords_line (hclosed : endsInComment first = false)
    (hstray : (scan first).stray = none) :
    bareWords (first ++ "\n" ++ second) = bareWords first ++ bareWords second :=
  bareWords_joined rfl (by decide) hclosed hstray

end

end StackCalc
