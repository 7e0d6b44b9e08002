import ContentGraph.Proofs.Document.Headings

/-!
# Hashes at the end of a heading

Behind white space, hashes at the end of a heading line close it and belong to no heading; hashes
that are attached to a word belong to the text. The headings are told without the hashes at their
ends in either case. So what is told is what the line says exactly when its text does not end in
attached hashes, and else these are missing (`headings_unclosed`): a name that ends in a hash
loses it (`attached_hash_dropped`).
-/

namespace ContentGraph.Document

open ContentGraph.Text

/-! ## What a line says -/

/-- Holds for lines that are, behind white space, some hashes, a space and a text, which is meant
without the white space around it. -/
structure IsWritten (level : Nat) (text line : List Char) : Prop where
  level_pos : 1 ≤ level
  level_le : level ≤ 6
  written : ∃ blanks rest, allBlank blanks = true
    ∧ line = blanks ++ (List.replicate level '#' ++ ' ' :: rest) ∧ text = trim rest

/-- Holds for a line that is written as a heading. -/
def WrittenAt (ls : List (List Char)) (i level : Nat) (text : List Char) : Prop :=
  ∃ line, ls[i]? = some line ∧ IsWritten level text line

/-- Holds for a text that hashes close: white space stands in front of them, or nothing. -/
def IsClosed (heading text : List Char) : Prop :=
  trimEnd heading = heading ∧ ∃ blanks n, allBlank blanks = true ∧ (blanks = [] → heading = [])
    ∧ text = heading ++ blanks ++ List.replicate (n + 1) '#'

/-- What the text of a line says: all of it, or what the closing hashes leave. -/
def Says (heading text : List Char) : Prop :=
  IsClosed heading text ∨ heading = text ∧ ∀ other, ¬IsClosed other text

/-- Holds for texts that end in hashes with a word right in front of them. -/
def EndsAttached (text : List Char) : Prop :=
  ∃ front n, text = front ++ List.replicate (n + 1) '#'
    ∧ ∃ c, front.getLast? = some c ∧ isBlank c = false ∧ c ≠ '#'

theorem isHeadingLine_iff {level : Nat} {heading line : List Char} :
    IsHeadingLine level heading line
      ↔ ∃ text, IsWritten level text line ∧ heading = unclosed text ∧ heading ≠ [] := by
  constructor
  · rintro ⟨hpos, hle, hne, blanks, rest, hblanks, hline, hheading⟩
    exact ⟨trim rest, ⟨hpos, hle, blanks, rest, hblanks, hline, rfl⟩, hheading, hne⟩
  · rintro ⟨text, ⟨hpos, hle, blanks, rest, hblanks, hline, rfl⟩, hheading, hne⟩
    exact ⟨hpos, hle, hne, blanks, rest, hblanks, hline, hheading⟩

theorem IsWritten.trim_eq {level : Nat} {text line : List Char} (h : IsWritten level text line) :
    trim text = text := by
  obtain ⟨-, -, _, rest, -, -, rfl⟩ := h
  exact trim_trim rest

/-! ## The end of a text -/

section End

variable {text front heading : List Char}

theorem exists_hashes (text : List Char) :
    ∃ n, text = trimEndOf '#' text ++ List.replicate n '#' := by
  refine ⟨(text.rtakeWhile (· == '#')).length, ?_⟩
  have hhashes : text.rtakeWhile (· == '#')
      = List.replicate (text.rtakeWhile (· == '#')).length '#' :=
    List.eq_replicate_of_mem fun c hc =>
      beq_iff_eq.1 (List.mem_rtakeWhile_imp (p := (· == '#')) hc)
  rw [← hhashes]
  exact List.rdropWhile_append_rtakeWhile.symm

theorem trimEndOf_append_hashes (front : List Char) (n : Nat) :
    trimEndOf '#' (front ++ List.replicate n '#') = trimEndOf '#' front := by
  have hall : ∀ c ∈ List.replicate n '#', (c == '#') = true := fun c hc =>
    beq_iff_eq.2 (List.eq_of_mem_replicate hc)
  unfold trimEndOf
  rw [List.reverse_append, List.reverse_replicate, List.dropWhile_append_of_pos hall]

theorem trimEndOf_of_last {c : Char} (hlast : front.getLast? = some c) (hc : c ≠ '#') :
    trimEndOf '#' front = front :=
  rdropWhile_of_last hlast (beq_eq_false_iff_ne.2 hc)

/-- In a text without white space around it, only the end is to be trimmed behind its hashes. -/
theorem unclosed_of_trimmed (h : trim text = text) :
    unclosed text = trimEnd (trimEndOf '#' text) := by
  have hprefix : trimEndOf '#' text <+: text := List.rdropWhile_prefix (· == '#') text
  unfold unclosed trim
  rw [trimStart_of_front hprefix h]

/-! ## Closing and attached hashes -/

/-- What is in front of closing hashes ends in white space, if there is anything. -/
theorem isBlank_of_last {blanks : List Char} (hblanks : allBlank blanks = true)
    (hnil : blanks = [] → heading = []) {c : Char}
    (hlast : (heading ++ blanks).getLast? = some c) : isBlank c = true := by
  cases hend : blanks.getLast? with
  | none =>
      obtain rfl := List.getLast?_eq_none_iff.1 hend
      rw [hnil rfl] at hlast
      cases hlast
  | some d =>
      rw [List.getLast?_append, hend] at hlast
      obtain rfl := Option.some.inj hlast
      exact allBlank_iff.1 hblanks d (List.mem_of_getLast? hend)

theorem IsClosed.trimEndOf_eq (h : IsClosed heading text) :
    ∃ blanks, allBlank blanks = true ∧ trimEndOf '#' text = heading ++ blanks
      ∧ ∀ c, (heading ++ blanks).getLast? = some c → isBlank c = true := by
  obtain ⟨-, blanks, n, hblanks, hnil, rfl⟩ := h
  have hblank (c : Char) (hlast : (heading ++ blanks).getLast? = some c) : isBlank c = true :=
    isBlank_of_last hblanks hnil hlast
  refine ⟨blanks, hblanks, ?_, hblank⟩
  rw [trimEndOf_append_hashes]
  cases hlast : (heading ++ blanks).getLast? with
  | none =>
      rw [List.getLast?_eq_none_iff.1 hlast]
      rfl
  | some c =>
      refine trimEndOf_of_last hlast ?_
      rintro rfl
      exact absurd (hblank _ hlast) (by decide)

/-- Of closed texts, the headings are told as they are. -/
theorem IsClosed.unclosed_eq (h : IsClosed heading text) (htext : trim text = text) :
    unclosed text = heading := by
  obtain ⟨blanks, hblanks, hfront, -⟩ := h.trimEndOf_eq
  rw [unclosed_of_trimmed htext, hfront, trimEnd_append, if_pos hblanks, h.1]

/-- Attached hashes close no text, and all are missing in what is told. -/
theorem EndsAttached.told (h : EndsAttached text) (htext : trim text = text) :
    (∀ other, ¬IsClosed other text)
      ∧ ∃ n, text = unclosed text ++ List.replicate (n + 1) '#' := by
  obtain ⟨front, n, rfl, c, hlast, hblank, hc⟩ := h
  have hfront : trimEndOf '#' (front ++ List.replicate (n + 1) '#') = front := by
    rw [trimEndOf_append_hashes, trimEndOf_of_last hlast hc]
  refine ⟨fun other hclosed => ?_, n, ?_⟩
  · obtain ⟨blanks, -, heq, hends⟩ := hclosed.trimEndOf_eq
    rw [hfront] at heq
    rw [hends c (heq ▸ hlast)] at hblank
    cases hblank
  · have hend : trimEnd front = front := rdropWhile_of_last hlast hblank
    rw [unclosed_of_trimmed htext, hfront, hend]

theorem IsClosed.trimEndOf_ne (h : IsClosed heading text) : trimEndOf '#' text ≠ text := by
  obtain ⟨-, blanks, n, -, -, rfl⟩ := h
  intro heq
  rw [trimEndOf_append_hashes] at heq
  have hle : (trimEndOf '#' (heading ++ blanks)).length ≤ (heading ++ blanks).length :=
    (List.rdropWhile_prefix (· == '#') (heading ++ blanks)).length_le
  rw [heq, List.length_append, List.length_replicate] at hle
  omega

/-- A text with hashes behind white space, or behind nothing, is closed. -/
theorem isClosed_of_hashes {n : Nat} (hn : text = trimEndOf '#' text ++ List.replicate (n + 1) '#')
    (hfree : ¬EndsAttached text) : IsClosed (trimEnd (trimEndOf '#' text)) text := by
  obtain ⟨blanks, hblanks, hfront⟩ := exists_blanks_behind (trimEndOf '#' text)
  refine ⟨trimEnd_trimEnd _, blanks, n, hblanks, ?_, by rwa [← hfront]⟩
  rintro rfl
  rw [List.append_nil] at hfront
  by_contra hne
  rw [← hfront] at hne
  -- the last character in front of the hashes is no hash, and here no white space either
  have hhash := List.rdropWhile_last_not (· == '#') text hne
  have hblank := List.rdropWhile_eq_self_iff.1 hfront.symm hne
  exact hfree ⟨_, n, hn, _, List.getLast?_eq_some_getLast hne, Bool.eq_false_iff.2 hblank,
    fun heq => hhash (beq_iff_eq.2 heq)⟩

/-- Without attached hashes, what is told is all of a text or what closing hashes leave of it. -/
theorem says_unclosed (hfree : ¬EndsAttached text) (htext : trim text = text) :
    Says (unclosed text) text := by
  obtain ⟨n, hn⟩ := exists_hashes text
  rw [unclosed_of_trimmed htext]
  cases n with
  | zero =>
      rw [List.replicate_zero, List.append_nil] at hn
      refine .inr ⟨?_, fun other hclosed => hclosed.trimEndOf_ne hn.symm⟩
      rw [← hn, ← htext]
      exact trimEnd_trimEnd _
  | succ n => exact .inl (isClosed_of_hashes hn hfree)

/-- A text says one thing. -/
theorem Says.unique {other : List Char} (htext : trim text = text) (h : Says heading text)
    (h' : Says other text) : heading = other := by
  rcases h with hclosed | ⟨rfl, hnone⟩ <;> rcases h' with hclosed' | ⟨rfl, hnone'⟩
  · exact (hclosed.unclosed_eq htext).symm.trans (hclosed'.unclosed_eq htext)
  · exact absurd hclosed (hnone' _)
  · exact absurd hclosed' (hnone _)
  · rfl

end End

/-- **Closing hashes.** The headings are those of the lines that are written as headings outside of
fences, each without the hashes at its end. Where these are not attached to a word, this is what the
line says and nothing else is; where they are, all of the text is said, and they are not told. -/
theorem headings_unclosed (text : String) :
    Lists (headings text) (fun i heading =>
      (∃ level said, WrittenAt (lines text.toList) i level said
        ∧ heading = unclosed said ∧ heading ≠ [])
      ∧ IsOutside (lines text.toList) i)
    ∧ ∀ i level said, WrittenAt (lines text.toList) i level said →
      (¬EndsAttached said → ∀ heading, Says heading said ↔ heading = unclosed said)
      ∧ (EndsAttached said → (∀ heading, Says heading said ↔ heading = said)
        ∧ ∃ n, said = unclosed said ++ List.replicate (n + 1) '#') := by
  refine ⟨(lists_headings text).congr fun i heading => and_congr_left fun _ => ?_, ?_⟩
  · unfold HeadingAt WrittenAt
    simp only [isHeadingLine_iff]
    constructor
    · rintro ⟨level, line, hline, said, hwritten, hheading, hne⟩
      exact ⟨level, said, ⟨line, hline, hwritten⟩, hheading, hne⟩
    · rintro ⟨level, said, ⟨line, hline, hwritten⟩, hheading, hne⟩
      exact ⟨level, line, hline, said, hwritten, hheading, hne⟩
  · rintro i level said ⟨line, -, hwritten⟩
    have htrim := hwritten.trim_eq
    refine ⟨fun hfree heading => ?_, fun hends => ⟨fun heading => ?_, (hends.told htrim).2⟩⟩
    · have hsaid := says_unclosed hfree htrim
      exact ⟨fun h => h.unique htrim hsaid, fun h => h ▸ hsaid⟩
    · have hsaid : Says said said := .inr ⟨rfl, (hends.told htrim).1⟩
      exact ⟨fun h => h.unique htrim hsaid, fun h => h ▸ hsaid⟩

theorem endsAttached_sharp : EndsAttached "C#".toList :=
  ⟨"C".toList, 0, rfl, 'C', rfl, by decide, by decide⟩

/-- A guide with a name that ends in a hash, and with a heading that hashes close. -/
def hashText : String := "# C#\n\n## Next steps ##\n"

/-- Of the headings of this guide, the closed one is what its line says; the name lacks its hash. -/
theorem headings_unclosed_hashText :
    WrittenAt (lines hashText.toList) 0 1 "C#".toList ∧ EndsAttached "C#".toList
      ∧ (∀ heading, Says heading "C#".toList ↔ heading = "C#".toList)
      ∧ WrittenAt (lines hashText.toList) 2 2 "Next steps ##".toList
      ∧ ¬EndsAttached "Next steps ##".toList
      ∧ (∀ heading, Says heading "Next steps ##".toList ↔ heading = "Next steps".toList)
      ∧ headings hashText = ["C", "Next steps"] := by
  have hname : WrittenAt (lines hashText.toList) 0 1 "C#".toList :=
    ⟨"# C#".toList, by decide +kernel, by decide, by decide, [], "C#".toList, rfl, rfl, rfl⟩
  have hsteps : WrittenAt (lines hashText.toList) 2 2 "Next steps ##".toList :=
    ⟨"## Next steps ##".toList, by decide +kernel, by decide, by decide, [],
      "Next steps ##".toList, rfl, rfl, rfl⟩
  have hclosed : IsClosed "Next steps".toList "Next steps ##".toList :=
    ⟨by decide, [' '], 1, by decide, by simp, rfl⟩
  have hfree : ¬EndsAttached "Next steps ##".toList := fun h => (h.told (by decide)).1 _ hclosed
  obtain ⟨-, htold⟩ := headings_unclosed hashText
  exact ⟨hname, endsAttached_sharp, ((htold 0 1 _ hname).2 endsAttached_sharp).1, hsteps, hfree,
    (htold 2 2 _ hsteps).1 hfree, by decide +kernel⟩

/-- A name that ends in a hash is told without it. -/
theorem attached_hash_dropped :
    ¬∀ text, Lists (headings text) fun i heading =>
      (∃ level said, WrittenAt (lines text.toList) i level said ∧ Says heading said
        ∧ heading ≠ [])
      ∧ IsOutside (lines text.toList) i := by
  intro h
  have hwritten : WrittenAt (lines "# C#\n".toList) 0 1 "C#".toList :=
    ⟨"# C#".toList, by decide +kernel, by decide, by decide, [], "C#".toList, rfl, rfl, rfl⟩
  have hsaid : Says "C#".toList "C#".toList :=
    .inr ⟨rfl, (endsAttached_sharp.told (by decide)).1⟩
  have hmem := (h "# C#\n").mem (i := 0)
    ⟨⟨1, _, hwritten, hsaid, by decide⟩, isOutside_zero _⟩
  revert hmem
  decide +kernel

end ContentGraph.Document
