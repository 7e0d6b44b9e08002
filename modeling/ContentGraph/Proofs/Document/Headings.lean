import ContentGraph.Document.Heading
import ContentGraph.Proofs.Text.Trimming
import Mathlib.Algebra.Group.Nat.Even

/-!
# Headings and the title

A heading is told of each line that is a heading line and stands behind an even number of fence
lines (`lists_headings`). The title comes from the first line of one hash and some text, whether it
stands in a fence or not, and with the hashes that close it. So that line is the first heading of
level one, with the same text, exactly when it stands outside of fences and ends in no hash
(`title_told`); a comment in a block of code is taken for the title (`comment_titles`).
-/

namespace ContentGraph.Document

open ContentGraph.Text

/-! ## Heading lines -/

/-- What a heading says: its text without the hashes that close it. -/
def unclosed (text : List Char) : List Char := trim (trimEndOf '#' text)

/-- Holds for lines that are, behind white space, some hashes, a space and the text of a heading. -/
structure IsHeadingLine (level : Nat) (heading line : List Char) : Prop where
  level_pos : 1 ≤ level
  level_le : level ≤ 6
  ne_nil : heading ≠ []
  written : ∃ blanks rest, allBlank blanks = true
    ∧ line = blanks ++ (List.replicate level '#' ++ ' ' :: rest) ∧ heading = unclosed (trim rest)

theorem trimStart_written {blanks : List Char} (hblanks : allBlank blanks = true) {level : Nat}
    (hlevel : 1 ≤ level) (rest : List Char) :
    trimStart (blanks ++ (List.replicate level '#' ++ ' ' :: rest))
      = List.replicate level '#' ++ ' ' :: rest := by
  obtain ⟨n, rfl⟩ := Nat.exists_eq_add_of_le' hlevel
  rw [trimStart_append_of_allBlank hblanks, List.replicate_succ, List.cons_append,
    trimStart_cons_of_not_isBlank (by decide)]

theorem headingText?_eq_some_iff {line heading : List Char} (hne : heading ≠ []) :
    headingText? line = some heading ↔ ∃ level, IsHeadingLine level heading line := by
  constructor
  · intro h
    unfold headingText? at h
    dsimp only at h
    split at h
    · next hlevel =>
      obtain ⟨hpos, hle, hspace⟩ := hlevel
      obtain ⟨rest, hrest⟩ := List.head?_eq_some_iff.1 hspace
      obtain ⟨blanks, hblanks, hline⟩ := exists_blanks line
      have hhashes : (trimStart line).takeWhile (· == '#')
          = List.replicate ((trimStart line).takeWhile (· == '#')).length '#' :=
        List.eq_replicate_of_mem fun c hc =>
          beq_iff_eq.1 (List.mem_takeWhile_imp (p := (· == '#')) hc)
      rw [hrest, trim_cons_of_isBlank (by decide)] at h
      refine ⟨_, hpos, hle, hne, blanks, rest, hblanks, ?_, (Option.some.inj h).symm⟩
      rw [← hhashes, ← hrest, List.takeWhile_append_dropWhile]
      exact hline
    · cases h
  · rintro ⟨level, hpos, hle, -, blanks, rest, hblanks, rfl, rfl⟩
    have hall : ∀ c ∈ List.replicate level '#', (c == '#') = true := fun c hc =>
      beq_iff_eq.2 (List.eq_of_mem_replicate hc)
    unfold headingText?
    dsimp only
    rw [trimStart_written hblanks hpos, List.takeWhile_append_of_pos hall,
      List.dropWhile_append_of_pos hall, List.takeWhile_cons_of_neg (by decide),
      List.dropWhile_cons_of_neg (by decide), List.append_nil, List.length_replicate,
      if_pos ⟨hpos, hle, rfl⟩, trim_cons_of_isBlank (by decide)]
    rfl

/-- A heading line is no fence. -/
theorem IsHeadingLine.not_isFence {level : Nat} {heading line : List Char}
    (h : IsHeadingLine level heading line) : isFence line = false := by
  obtain ⟨hpos, -, -, blanks, rest, hblanks, rfl, -⟩ := h
  obtain ⟨n, rfl⟩ := Nat.exists_eq_add_of_le' hpos
  unfold isFence
  rw [trimStart_written hblanks hpos, List.replicate_succ]
  rfl

/-! ## Where headings stand -/

/-- The headings are those of the lines at which something holds, in their order. -/
def Lists (headings : List String) (At : Nat → List Char → Prop) : Prop :=
  ∃ found : List (Nat × List Char), headings = found.map (fun p => String.ofList p.2)
    ∧ found.Pairwise (fun p q => p.1 < q.1) ∧ ∀ i heading, (i, heading) ∈ found ↔ At i heading

section Lists

variable {told : List String} {At At' : Nat → List Char → Prop}

theorem Lists.congr (h : Lists told At) (hat : ∀ i heading, At i heading ↔ At' i heading) :
    Lists told At' := by
  obtain ⟨found, hfound, horder, hmem⟩ := h
  exact ⟨found, hfound, horder, fun i heading => (hmem i heading).trans (hat i heading)⟩

theorem Lists.mem (h : Lists told At) {i : Nat} {heading : List Char} (hat : At i heading) :
    String.ofList heading ∈ told := by
  obtain ⟨found, rfl, -, hmem⟩ := h
  exact List.mem_map_of_mem (f := fun p => String.ofList p.2) ((hmem i heading).2 hat)

theorem mem_shifted {found : List (Nat × List Char)} {i : Nat} {heading : List Char} :
    (i, heading) ∈ found.map (fun p => (p.1 + 1, p.2)) ↔ ∃ j, i = j + 1 ∧ (j, heading) ∈ found := by
  rw [List.mem_map]
  constructor
  · rintro ⟨⟨j, t⟩, hmem, heq⟩
    obtain ⟨rfl, rfl⟩ := Prod.mk.inj heq
    exact ⟨j, rfl, hmem⟩
  · rintro ⟨j, rfl, hmem⟩
    exact ⟨(j, heading), hmem, rfl⟩

/-- A first line without a heading adds none. -/
theorem Lists.skip (h : Lists told fun i => At (i + 1)) (hfirst : ∀ heading, ¬At 0 heading) :
    Lists told At := by
  obtain ⟨found, rfl, horder, hmem⟩ := h
  refine ⟨found.map fun p => (p.1 + 1, p.2), by rw [List.map_map]; rfl, ?_, fun i heading => ?_⟩
  · exact List.pairwise_map.2 (horder.imp fun hlt => Nat.succ_lt_succ hlt)
  · rw [mem_shifted]
    cases i with
    | zero =>
        refine iff_of_false ?_ (hfirst heading)
        rintro ⟨j, hj, -⟩
        cases hj
    | succ i =>
        refine Iff.trans ?_ (hmem i heading)
        exact ⟨fun ⟨j, hj, hfound⟩ => Nat.succ.inj hj ▸ hfound, fun hfound => ⟨i, rfl, hfound⟩⟩

/-- The heading of a first line is told first. -/
theorem Lists.cons (h : Lists told fun i => At (i + 1)) {first : List Char}
    (hfirst : ∀ heading, At 0 heading ↔ heading = first) :
    Lists (String.ofList first :: told) At := by
  obtain ⟨found, rfl, horder, hmem⟩ := h
  refine ⟨(0, first) :: found.map fun p => (p.1 + 1, p.2), ?_, ?_, fun i heading => ?_⟩
  · rw [List.map_cons, List.map_map]
    rfl
  · refine List.pairwise_cons.2 ⟨fun q hq => ?_, ?_⟩
    · obtain ⟨j, hj, -⟩ := mem_shifted.1 hq
      exact hj ▸ Nat.succ_pos j
    · exact List.pairwise_map.2 (horder.imp fun hlt => Nat.succ_lt_succ hlt)
  · rw [List.mem_cons, mem_shifted]
    cases i with
    | zero =>
        rw [hfirst, Prod.mk.injEq, and_iff_right rfl, or_iff_left]
        rintro ⟨j, hj, -⟩
        cases hj
    | succ i =>
        have hne : (i + 1, heading) ≠ (0, first) := fun h => Nat.succ_ne_zero i (Prod.mk.inj h).1
        rw [or_iff_right hne]
        refine Iff.trans ?_ (hmem i heading)
        exact ⟨fun ⟨j, hj, hfound⟩ => Nat.succ.inj hj ▸ hfound, fun hfound => ⟨i, rfl, hfound⟩⟩

end Lists

/-- Holds for a line that is a heading line. -/
def HeadingAt (ls : List (List Char)) (i level : Nat) (heading : List Char) : Prop :=
  ∃ line, ls[i]? = some line ∧ IsHeadingLine level heading line

/-- Holds for a line before which each fence that was opened is closed again. -/
def IsOutside (ls : List (List Char)) (i : Nat) : Prop := Even ((ls.take i).countP isFence)

instance (ls : List (List Char)) (i : Nat) : Decidable (IsOutside ls i) :=
  inferInstanceAs (Decidable (Even _))

theorem isOutside_zero (ls : List (List Char)) : IsOutside ls 0 := Nat.even_iff.2 rfl

/-- A fence in front changes what is outside. -/
theorem isOutside_succ (line : List Char) (ls : List (List Char)) (i : Nat) :
    IsOutside (line :: ls) (i + 1) ↔ (isFence line = true ↔ ¬IsOutside ls i) := by
  unfold IsOutside
  rw [List.take_succ_cons, List.countP_cons]
  cases isFence line with
  | false => simp
  | true => simp [Nat.even_add_one]

/-- A first line has a heading where what is read of it is not empty. -/
theorem headingAt_zero_iff {line heading : List Char} {ls : List (List Char)} :
    (∃ level, HeadingAt (line :: ls) 0 level heading)
      ↔ heading ≠ [] ∧ headingText? line = some heading := by
  constructor
  · rintro ⟨level, first, hfirst, hheading⟩
    obtain rfl := Option.some.inj hfirst
    exact ⟨hheading.ne_nil, (headingText?_eq_some_iff hheading.ne_nil).2 ⟨level, hheading⟩⟩
  · rintro ⟨hne, htext⟩
    obtain ⟨level, hheading⟩ := (headingText?_eq_some_iff hne).1 htext
    exact ⟨level, line, rfl, hheading⟩

/-- The headings behind a place that is in a fence or not: those of the heading lines behind a
number of fence lines that leads out of fences. -/
theorem lists_headingsFrom (fenced : Bool) (ls : List (List Char)) :
    Lists (headingsFrom fenced ls) fun i heading =>
      (∃ level, HeadingAt ls i level heading) ∧ (fenced = true ↔ ¬IsOutside ls i) := by
  induction ls generalizing fenced with
  | nil =>
      refine ⟨[], rfl, .nil, fun i heading => iff_of_false List.not_mem_nil ?_⟩
      rintro ⟨⟨_, _, hline, -⟩, -⟩
      cases hline
  | cons line ls ih =>
      unfold headingsFrom
      cases hfence : isFence line with
      | true =>
          refine ((ih !fenced).congr fun i heading => and_congr_right fun _ => ?_).skip ?_
          · rw [isOutside_succ, hfence]
            cases fenced <;> simp
          · rintro heading ⟨⟨level, first, hfirst, hheading⟩, -⟩
            obtain rfl := Option.some.inj hfirst
            rw [hheading.not_isFence] at hfence
            cases hfence
      | false =>
          have hrest : Lists (headingsFrom fenced ls) fun i heading =>
              (∃ level, HeadingAt (line :: ls) (i + 1) level heading)
                ∧ (fenced = true ↔ ¬IsOutside (line :: ls) (i + 1)) := by
            refine (ih fenced).congr fun i heading => and_congr_right fun _ => ?_
            rw [isOutside_succ, hfence]
            simp
          cases fenced with
          | true => exact hrest.skip fun heading hat => hat.2.1 rfl (isOutside_zero _)
          | false =>
              have hfirst (heading : List Char) :
                  ((∃ level, HeadingAt (line :: ls) 0 level heading)
                    ∧ (false = true ↔ ¬IsOutside (line :: ls) 0))
                  ↔ heading ≠ [] ∧ headingText? line = some heading := by
                rw [headingAt_zero_iff,
                  and_iff_left (iff_of_false Bool.false_ne_true (not_not.2 (isOutside_zero _)))]
              cases htext : headingText? line with
              | none =>
                  refine hrest.skip fun heading hat => ?_
                  rw [hfirst, htext] at hat
                  cases hat.2
              | some heading =>
                  cases heading with
                  | nil =>
                      -- a heading without text is none
                      refine hrest.skip fun heading hat => ?_
                      rw [hfirst, htext] at hat
                      exact hat.1 (Option.some.inj hat.2).symm
                  | cons c rest =>
                      refine hrest.cons fun heading => ?_
                      rw [hfirst, htext, Option.some.injEq]
                      exact ⟨fun h => h.2.symm, fun h => ⟨h ▸ List.cons_ne_nil _ _, h.symm⟩⟩

/-- **Headings.** They are those of the heading lines behind an even number of fence lines. -/
theorem lists_headings (text : String) :
    Lists (headings text) fun i heading =>
      (∃ level, HeadingAt (lines text.toList) i level heading)
        ∧ IsOutside (lines text.toList) i := by
  refine (lists_headingsFrom false _).congr fun i heading => and_congr_right fun _ => ?_
  simp

/-! ## The title -/

/-- Holds for lines that are, behind white space, one hash, a space and some text. -/
def IsTitleLine (title line : List Char) : Prop :=
  title ≠ [] ∧ ∃ blanks rest, allBlank blanks = true ∧ line = blanks ++ '#' :: ' ' :: rest
    ∧ title = trim rest

theorem titleLine?_eq_some_iff {line title : List Char} :
    titleLine? line = some title ↔ IsTitleLine title line := by
  -- what is trimmed at the end stands behind the space unless nothing does
  have hend (rest : List Char) (h : ¬allBlank rest = true) :
      trimEnd ('#' :: ' ' :: rest) = '#' :: ' ' :: trimEnd rest := by
    have := trimEnd_append ['#', ' '] rest
    rwa [if_neg h] at this
  constructor
  · intro h
    obtain ⟨blanks, hblanks, hline⟩ := exists_blanks line
    unfold titleLine? at h
    split at h
    · next kept hkept =>
      obtain ⟨tail, htail⟩ := List.rdropWhile_prefix isBlank (trimStart line)
      have hfront : trimStart line = '#' :: ' ' :: (kept ++ tail) := by
        rw [← htail, ← trimEnd_eq]
        exact congrArg (· ++ tail) hkept
      have hrest : ¬allBlank (kept ++ tail) = true := fun hblank => by
        unfold trim at hkept
        have := trimEnd_append ['#', ' '] (kept ++ tail)
        rw [if_pos hblank] at this
        rw [hfront, show '#' :: ' ' :: (kept ++ tail) = ['#', ' '] ++ (kept ++ tail) from rfl,
          this] at hkept
        revert hkept
        simp [trimEnd, isBlank]
      have hkeep : trimEnd (kept ++ tail) = kept := by
        unfold trim at hkept
        rw [hfront, hend _ hrest] at hkept
        exact (List.cons.inj (List.cons.inj hkept).2).2
      have htitle : title = trim (kept ++ tail) := by
        rw [← trim_trimEnd, hkeep]
        exact (Option.some.inj h).symm
      refine ⟨?_, blanks, kept ++ tail, hblanks, hfront ▸ hline, htitle⟩
      rw [htitle, Ne, trim_eq_nil_iff]
      exact hrest
    · cases h
  · rintro ⟨hne, blanks, rest, hblanks, rfl, rfl⟩
    have hrest : ¬allBlank rest = true := by rwa [← trim_eq_nil_iff]
    have hline : trim (blanks ++ '#' :: ' ' :: rest) = '#' :: ' ' :: trimEnd rest := by
      unfold trim
      rw [trimStart_append_of_allBlank hblanks, trimStart_cons_of_not_isBlank (by decide),
        hend rest hrest]
    unfold titleLine?
    rw [hline, ← trim_trimEnd rest]
    rfl

/-- The lines of headings of level one are lines of titles, and say these without closing hashes. -/
theorem isHeadingLine_one_iff {heading line : List Char} :
    IsHeadingLine 1 heading line
      ↔ heading ≠ [] ∧ ∃ title, IsTitleLine title line ∧ heading = unclosed title := by
  constructor
  · rintro ⟨-, -, hne, blanks, rest, hblanks, hline, hheading⟩
    refine ⟨hne, trim rest, ⟨fun hnil => hne ?_, blanks, rest, hblanks, hline, rfl⟩, hheading⟩
    rw [hheading, hnil]
    rfl
  · rintro ⟨hne, title, ⟨-, blanks, rest, hblanks, hline, rfl⟩, hheading⟩
    exact ⟨Nat.le_refl _, by decide, hne, blanks, rest, hblanks, hline, hheading⟩

theorem IsTitleLine.unique {title title' line : List Char} (h : IsTitleLine title line)
    (h' : IsTitleLine title' line) : title = title' :=
  Option.some.inj ((titleLine?_eq_some_iff.2 h).symm.trans (titleLine?_eq_some_iff.2 h'))

/-- A title is a heading as it is just when it ends in no hash. -/
theorem IsTitleLine.unclosed_eq_iff {title line : List Char} (h : IsTitleLine title line) :
    unclosed title = title ↔ title.getLast? ≠ some '#' := by
  obtain ⟨hne, blanks, rest, -, -, rfl⟩ := h
  unfold unclosed
  rw [List.getLast?_eq_some_getLast hne, Ne, Option.some.injEq]
  constructor
  · intro heq hlast
    have hle := trim_length_le (trimEndOf '#' (trim rest))
    have hprefix := List.rdropWhile_prefix (· == '#') (trim rest)
    rw [heq] at hle
    have hwhole := hprefix.eq_of_length_le hle
    exact (List.rdropWhile_eq_self_iff.1 hwhole) hne (beq_iff_eq.2 hlast)
  · intro hlast
    have hwhole : trimEndOf '#' (trim rest) = trim rest :=
      List.rdropWhile_eq_self_iff.2 fun _ hhash => hlast (beq_iff_eq.1 hhash)
    rw [hwhole, trim_trim]

/-- The first title line of some lines. -/
def TitleAt (ls : List (List Char)) (i : Nat) (title : List Char) : Prop :=
  (∃ line, ls[i]? = some line ∧ IsTitleLine title line)
    ∧ ∀ j < i, ∀ line title, ls[j]? = some line → ¬IsTitleLine title line

/-- The first heading of level one among the headings of some lines. -/
def FirstHeading (ls : List (List Char)) (i : Nat) (heading : List Char) : Prop :=
  (HeadingAt ls i 1 heading ∧ IsOutside ls i)
    ∧ ∀ j < i, ∀ heading, ¬(HeadingAt ls j 1 heading ∧ IsOutside ls j)

section Title

variable {ls : List (List Char)} {i : Nat} {title heading : List Char}

theorem findSome?_titleLine? (h : TitleAt ls i title) : ls.findSome? titleLine? = some title := by
  obtain ⟨⟨line, hline, htitle⟩, hbefore⟩ := h
  obtain ⟨hi, rfl⟩ := List.getElem?_eq_some_iff.1 hline
  refine List.findSome?_eq_some_iff.2 ⟨ls.take i, ls[i], ls.drop (i + 1), ?_,
    titleLine?_eq_some_iff.2 htitle, fun line hmem => ?_⟩
  · rw [List.getElem_cons_drop, List.take_append_drop]
  · obtain ⟨j, hj, hget⟩ := List.mem_iff_getElem.1 hmem
    rw [List.getElem_take] at hget
    rw [List.length_take] at hj
    rw [← Option.not_isSome_iff_eq_none, Option.isSome_iff_exists]
    rintro ⟨title', htitle'⟩
    exact hbefore j (by omega) line title' (List.getElem?_eq_some_iff.2 ⟨by omega, hget⟩)
      (titleLine?_eq_some_iff.1 htitle')

/-- Lines of which some is a title line have a first one. -/
theorem exists_titleAt {k : Nat} {line : List Char} (hline : ls[k]? = some line)
    (htitle : IsTitleLine title line) : ∃ i ≤ k, ∃ title, TitleAt ls i title := by
  induction k using Nat.strong_induction_on generalizing line title with
  | _ k ih =>
      by_cases hbefore : ∀ j < k, ∀ line title, ls[j]? = some line → ¬IsTitleLine title line
      · exact ⟨k, Nat.le_refl k, title, ⟨line, hline, htitle⟩, hbefore⟩
      · simp only [not_forall, not_not] at hbefore
        obtain ⟨j, hjk, line', title', hline', htitle'⟩ := hbefore
        obtain ⟨i, hij, first, hfirst⟩ := ih j hjk hline' htitle'
        exact ⟨i, hij.trans hjk.le, first, hfirst⟩

theorem not_headingAt_of_lt (h : TitleAt ls i title) {j : Nat} (hj : j < i) :
    ¬HeadingAt ls j 1 heading := by
  rintro ⟨line, hline, hheading⟩
  obtain ⟨-, title', htitle', -⟩ := isHeadingLine_one_iff.1 hheading
  exact h.2 j hj line title' hline htitle'

/-- The first title line is the first heading of level one if it stands outside of fences and ends
in no hash, and else it is not. -/
theorem firstHeading_iff (h : TitleAt ls i title) :
    FirstHeading ls i title ↔ IsOutside ls i ∧ title.getLast? ≠ some '#' := by
  obtain ⟨⟨line, hline, htitle⟩, -⟩ := id h
  rw [← htitle.unclosed_eq_iff]
  constructor
  · rintro ⟨⟨⟨line', hline', hheading⟩, houtside⟩, -⟩
    obtain rfl := Option.some.inj (hline.symm.trans hline')
    obtain ⟨-, title', htitle', heq⟩ := isHeadingLine_one_iff.1 hheading
    obtain rfl := htitle.unique htitle'
    exact ⟨houtside, heq.symm⟩
  · rintro ⟨houtside, heq⟩
    have hheading : IsHeadingLine 1 title line :=
      isHeadingLine_one_iff.2 ⟨htitle.1, title, htitle, heq.symm⟩
    exact ⟨⟨⟨line, hline, hheading⟩, houtside⟩,
      fun j hj heading hfound => not_headingAt_of_lt h hj hfound.1⟩

end Title

/-- **Title.** The title of a document is the text of its first title line, and the file's stem if
it has none. That line is the first heading of level one, with the same text, just when it stands
outside of fences and ends in no hash; without a title line there is no heading of level one. -/
theorem title_told (relative text : String) :
    ((∀ i title, ¬TitleAt (lines text.toList) i title) →
      title relative text = Path.stemOrSelf relative
        ∧ ∀ i heading, ¬FirstHeading (lines text.toList) i heading)
    ∧ ∀ i first, TitleAt (lines text.toList) i first →
      title relative text = String.ofList first
        ∧ (FirstHeading (lines text.toList) i first
          ↔ IsOutside (lines text.toList) i ∧ first.getLast? ≠ some '#')
        ∧ (FirstHeading (lines text.toList) i first → title relative text ∈ headings text) := by
  refine ⟨fun hnone => ⟨?_, ?_⟩, fun i first hfirst => ?_⟩
  · have hfind : (lines text.toList).findSome? titleLine? = none := by
      rw [List.findSome?_eq_none_iff]
      intro line hmem
      rw [← Option.not_isSome_iff_eq_none, Option.isSome_iff_exists]
      rintro ⟨title, htitle⟩
      obtain ⟨k, hk⟩ := List.getElem?_of_mem hmem
      obtain ⟨i, -, first, hfirst⟩ := exists_titleAt hk (titleLine?_eq_some_iff.1 htitle)
      exact hnone i first hfirst
    unfold title
    rw [hfind]
  · rintro i heading ⟨⟨⟨line, hline, hheading⟩, -⟩, -⟩
    obtain ⟨-, title, htitle, -⟩ := isHeadingLine_one_iff.1 hheading
    obtain ⟨k, -, first, hfirst⟩ := exists_titleAt hline htitle
    exact hnone k first hfirst
  · have htitle : title relative text = String.ofList first := by
      obtain ⟨⟨line, -, hne, -⟩, -⟩ := id hfirst
      obtain ⟨c, rest, rfl⟩ := List.exists_cons_of_ne_nil hne
      unfold title
      rw [findSome?_titleLine? hfirst]
    refine ⟨htitle, firstHeading_iff hfirst, fun hfound => ?_⟩
    rw [htitle]
    exact (lists_headings text).mem ⟨⟨1, hfound.1.1⟩, hfound.1.2⟩

/-- A guide with a comment in a block of code, and a heading that is closed by hashes. -/
def guideText : String :=
  "# Getting Started\n\n```sh\n# not a heading\n```\n\n### Next steps ###\n"

/-- The title of this guide is its first heading. -/
theorem title_told_guideText :
    TitleAt (lines guideText.toList) 0 "Getting Started".toList
      ∧ title "guides/intro.md" guideText = "Getting Started"
      ∧ FirstHeading (lines guideText.toList) 0 "Getting Started".toList
      ∧ title "guides/intro.md" guideText ∈ headings guideText := by
  have hline : (lines guideText.toList)[0]? = some "# Getting Started".toList := by decide +kernel
  have hfirst : TitleAt (lines guideText.toList) 0 "Getting Started".toList :=
    ⟨⟨_, hline, by decide, [], "Getting Started".toList, rfl, rfl, by decide⟩,
      fun j hj => absurd hj (Nat.not_lt_zero j)⟩
  obtain ⟨htitle, hiff, hmem⟩ := (title_told "guides/intro.md" guideText).2 0 _ hfirst
  have hfound := hiff.2 (by decide +kernel)
  exact ⟨hfirst, htitle, hfound, hmem hfound⟩

/-- A comment in a block of code is taken for the title, though it is no heading. -/
theorem comment_titles :
    ¬∀ relative text,
      (∀ i heading, FirstHeading (lines text.toList) i heading →
        title relative text = String.ofList heading)
      ∧ ((∀ i heading, ¬FirstHeading (lines text.toList) i heading) →
        title relative text = Path.stemOrSelf relative)
      ∧ (title relative text ≠ Path.stemOrSelf relative → title relative text ∈ headings text) := by
  intro h
  obtain ⟨-, -, htold⟩ := h "setup.md" "```sh\n# fetch the tool\n```\n# Setup\n"
  revert htold
  decide +kernel

end ContentGraph.Document
