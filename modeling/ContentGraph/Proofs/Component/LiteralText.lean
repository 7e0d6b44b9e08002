import ContentGraph.Component.Analysis
import ContentGraph.Proofs.Component.Spelling
import ContentGraph.Proofs.Tsx.Scanning

/-!
# Strings as they are told

A string that is written in any of its spellings is read as one node, from quote to quote, and what
is told of this node is what is told of the spellings (`string_told`).
-/

namespace ContentGraph.Component

open Tsx Piece
open Text (isHexDigit charOf?)

variable {src : Source} {i : Nat}

/-! ## Ends of escapes -/

section Escapes

variable {c : Char} {more : List Char}

/-- Holds for the line feed and the separators of lines. -/
def isFeed (c : Char) : Bool := c == '\n' || isSeparator c

/-- Where an escape ends is found from the character behind its backslash and the two behind that. -/
theorem escape?_eq (h : src.rest i = backslash :: c :: more) :
    escape? src i =
      if (c == '\r' || c == '?') && more.head?.any isFeed then some (i + 3)
      else if c == 'x' then
        if more.head?.any isHexDigit && more[1]?.any isHexDigit then some (i + 4) else none
      else if c == 'u' then unicodeEscape? src i
      else if isOctal c then
        if more.head?.any isOctal then (if more[1]?.any isOctal then some (i + 4) else some (i + 3))
        else some (i + 2)
      else some (i + 2) := by
  have hstart : src.isAt i backslash := by
    rw [Source.isAt_eq, h]
    rfl
  have hfirst : src.at? (i + 1) = some c := by
    rw [Source.at?_add, h]
    rfl
  have hsecond : src.at? (i + 2) = more.head? := by
    rw [Source.at?_add, h, List.head?_eq_getElem?]
    rfl
  have hthird : src.at? (i + 3) = more[1]? := by
    rw [Source.at?_add, h]
    rfl
  unfold escape?
  simp only [hstart, hfirst, hsecond, hthird]
  rfl

/-- An escape of one character ends behind it, unless a longer one is there. -/
theorem escape?_of_one (h : src.rest i = backslash :: c :: more) (hx : c ≠ 'x') (hu : c ≠ 'u')
    (hoctal : isOctal c → ¬more.head?.any isOctal)
    (hfeed : c = '\r' ∨ c = '?' → ¬more.head?.any isFeed) : escape? src i = some (i + 2) := by
  rw [escape?_eq h, if_neg, if_neg (by simpa using hx), if_neg (by simpa using hu)]
  · split
    · rename_i hc
      rw [if_neg (hoctal hc)]
    · rfl
  · rw [Bool.and_eq_true, Bool.or_eq_true, beq_iff_eq, beq_iff_eq]
    exact fun hboth => hfeed hboth.1 hboth.2

theorem escape?_of_feed {d : Char} (h : src.rest i = backslash :: c :: d :: more)
    (hc : c = '\r' ∨ c = '?') (hd : isFeed d) : escape? src i = some (i + 3) := by
  have hboth : (c == '\r' || c == '?') && (d :: more).head?.any isFeed := by
    rw [Bool.and_eq_true, Bool.or_eq_true, beq_iff_eq, beq_iff_eq]
    exact ⟨hc, hd⟩
  rw [escape?_eq h, if_pos hboth]

/-- Four digits end an escape by number. -/
theorem unicodeEscape?_of_unit {digits : List Char} (hlength : digits.length = 4)
    (hhex : ∀ d ∈ digits, isHexDigit d)
    (h : src.rest i = backslash :: 'u' :: (digits ++ more)) :
    unicodeEscape? src i = some (i + 6) := by
  have hbrace : ¬src.startsWith i [backslash, 'u', '\x7b'] := by
    rw [Source.startsWith_iff, h, List.cons_prefix_cons, List.cons_prefix_cons]
    rintro ⟨-, -, hprefix⟩
    cases digits with
    | nil => cases hlength
    | cons d digits =>
        rw [List.cons_append, List.cons_prefix_cons] at hprefix
        obtain ⟨rfl, -⟩ := hprefix
        exact absurd (hhex _ List.mem_cons_self) (by decide)
  have hletter : src.startsWith i [backslash, 'u'] := by
    rw [Source.startsWith_iff, h]
    exact ⟨digits ++ more, rfl⟩
  have hfour : (List.range 4).all fun k => (src.at? (i + 2 + k)).any isHexDigit := by
    rw [List.all_eq_true]
    intro k hk
    have hk : k < digits.length := by rwa [hlength, ← List.mem_range]
    rw [Nat.add_assoc, Source.at?_add, h, Nat.add_comm 2 k, List.getElem?_cons_succ,
      List.getElem?_cons_succ, List.getElem?_append_left hk, List.getElem?_eq_getElem hk]
    exact hhex _ (List.getElem_mem hk)
  unfold unicodeEscape?
  rw [if_neg hbrace, if_pos hletter, if_pos hfour]

/-- So does the brace behind digits in braces. -/
theorem unicodeEscape?_of_point {digits : List Char} (hlength : 0 < digits.length)
    (hhex : ∀ d ∈ digits, isHexDigit d)
    (h : src.rest i = backslash :: 'u' :: '\x7b' :: (digits ++ '\x7d' :: more)) :
    unicodeEscape? src i = some (i + 3 + digits.length + 1) := by
  have hbrace : src.startsWith i [backslash, 'u', '\x7b'] := by
    rw [Source.startsWith_iff, h]
    exact ⟨digits ++ '\x7d' :: more, rfl⟩
  have hdigits : src.rest (i + 3) = digits ++ '\x7d' :: more := by
    rw [Source.rest_add, h]
    rfl
  have hskip : src.skipWhile isHexDigit (i + 3) = i + 3 + digits.length :=
    Source.skipWhile_of_append hdigits hhex (by decide)
  have hclose : src.isAt (i + 3 + digits.length) '\x7d' := by
    rw [Source.isAt_eq, Source.rest_of_append hdigits]
    rfl
  unfold unicodeEscape?
  rw [if_pos hbrace]
  dsimp only
  rw [hskip, hclose, if_pos]
  simpa using hlength

theorem escape?_of_code (e : Code) (h : src.rest i = e.written ++ more) :
    escape? src i = some (i + e.written.length) := by
  have hunicode {more : List Char} (h : src.rest i = backslash :: 'u' :: more) :
      escape? src i = unicodeEscape? src i := by
    rw [escape?_eq h]
    rfl
  obtain ⟨form, digits, hhex, hfits⟩ := e
  cases form with
  | byte =>
      obtain ⟨a, b, rfl⟩ := List.length_eq_two.1 hfits
      have ha : isHexDigit a := hhex a List.mem_cons_self
      have hb : isHexDigit b := hhex b (List.mem_cons_of_mem a List.mem_cons_self)
      have hbyte : src.rest i = backslash :: 'x' :: a :: b :: more := h
      rw [escape?_eq hbyte]
      simp [Code.written, Code.letter, Code.body, ha, hb]
  | unit =>
      have hunit : src.rest i = backslash :: 'u' :: (digits ++ more) := h
      have hlength : digits.length = 4 := hfits
      rw [hunicode hunit, unicodeEscape?_of_unit hlength hhex hunit]
      simp [Code.written, Code.body, hlength]
  | point =>
      have hpoint : src.rest i = backslash :: 'u' :: '\x7b' :: (digits ++ '\x7d' :: more) := by
        simpa [Code.written, Code.letter, Code.body] using h
      rw [hunicode hpoint, unicodeEscape?_of_point hfits hhex hpoint]
      simp [Code.written, Code.body]
      omega

end Escapes

/-! ## Parts of strings -/

section Parts

variable {quote : Char} {j k : Nat} {s t more : List Char} {c : Char}

/-- A part of a string: text, an escape or a comment. -/
def stringPart (quote : Char) : Piece :=
  choice [Grammar.stringText quote, Grammar.escape, Grammar.commentNode]

/-- What a part stands for. -/
def partValue (src : Source) (n : Node) : List Char :=
  if n.kind = .escapeSequence then unescape (textOf src n) else textOf src n

/-- From one position to another stand parts that tell a text together. -/
def Tells (quote : Char) (src : Source) (i : Nat) (s : List Char) (j : Nat) : Prop :=
  ∃ ns, Steps (stringPart quote) src i ns j ∧ (∀ n ∈ ns, n.kind.isNamed)
    ∧ ns.flatMap (partValue src) = s

theorem Tells.nil : Tells quote src i [] i := ⟨[], .stop i, List.forall_mem_nil _, rfl⟩

theorem Tells.trans (h : Tells quote src i s j) (h' : Tells quote src j t k) :
    Tells quote src i (s ++ t) k := by
  obtain ⟨ns, hns, hnamed, rfl⟩ := h
  obtain ⟨ms, hms, hnamed', rfl⟩ := h'
  exact ⟨ns ++ ms, hns.trans hms, List.forall_mem_append.2 ⟨hnamed, hnamed'⟩, List.flatMap_append⟩

/-- Text that is written as it is is told so; it ends where something else stands. -/
theorem tells_text (h : src.rest i = s ++ c :: more) (hs : ∀ d ∈ s, isPlain quote d)
    (hc : ¬isPlain quote c) : Tells quote src i s (i + s.length) := by
  cases s with
  | nil => exact .nil
  | cons d s =>
      have hskip := Source.skipWhile_of_append h hs hc
      have hlt : i < i + (d :: s).length := by
        rw [List.length_cons]
        omega
      have htext : Grammar.stringText quote src i
          = some ([.mk .stringFragment none ⟨i, i + (d :: s).length⟩ []], i + (d :: s).length) := by
        unfold isPlain at hskip
        unfold Grammar.stringText immediate
        dsimp only
        rw [hskip, if_pos hlt]
        rfl
      have hpart : stringPart quote src i
          = some ([.mk .stringFragment none ⟨i, i + (d :: s).length⟩ []], i + (d :: s).length) := by
        unfold stringPart choice
        rw [htext]
      refine ⟨_, .one hpart hlt, fun n hn => ?_, ?_⟩
      · rw [List.mem_singleton.1 hn]
        rfl
      · rw [List.flatMap_singleton]
        exact Source.slice_of_append h

/-- No text starts at a backslash or a quote. -/
theorem stringText_of_not (h : src.rest i = c :: more) (hc : ¬isPlain quote c) :
    Grammar.stringText quote src i = none := by
  have hskip := Source.skipWhile_of_not h hc
  unfold isPlain at hskip
  unfold Grammar.stringText immediate
  dsimp only
  rw [hskip, if_neg (Nat.lt_irrefl i)]
  rfl

theorem isPlain_backslash : ¬isPlain quote backslash := by simp [isPlain]

theorem isPlain_quote : ¬isPlain quote quote := by simp [isPlain]

/-- An escape tells what it stands for. -/
theorem tells_escape (h : src.rest i = (backslash :: s) ++ more)
    (hend : escape? src i = some (i + (backslash :: s).length)) :
    Tells quote src i (unescape (backslash :: s)) (i + (backslash :: s).length) := by
  have hescape : Grammar.escape src i = some ([.mk .escapeSequence none
      ⟨i, i + (backslash :: s).length⟩ []], i + (backslash :: s).length) := by
    unfold Grammar.escape immediate
    rw [hend]
    rfl
  have hpart : stringPart quote src i = some ([.mk .escapeSequence none
      ⟨i, i + (backslash :: s).length⟩ []], i + (backslash :: s).length) := by
    unfold stringPart choice
    rw [stringText_of_not h isPlain_backslash]
    unfold choice
    rw [hescape]
  have hlt : i < i + (backslash :: s).length := by
    rw [List.length_cons]
    omega
  refine ⟨_, .one hpart hlt, fun n hn => ?_, ?_⟩
  · rw [List.mem_singleton.1 hn]
    rfl
  · rw [List.flatMap_singleton]
    exact congrArg unescape (Source.slice_of_append h)

/-! ## Spellings -/

/-- A line end behind a backslash tells nothing. -/
theorem tells_lineEnd {c : Char} (hc : endsLine c) (h : src.rest i = backslash :: c :: more)
    (hfeed : c = '\r' → ¬more.head?.any isFeed) : Tells quote src i [] (i + 2) := by
  have hletter (d : Char) (hd : ¬endsLine d) : c ≠ d := by
    rintro rfl
    exact hd hc
  have hoctal : ¬isOctal c := by
    rw [isOctal, Bool.and_eq_true, decide_eq_true_eq, decide_eq_true_eq]
    rintro ⟨hleast, hmost⟩
    have hleast : 48 ≤ c.toNat := hleast
    have hmost : c.toNat ≤ 55 := hmost
    rw [endsLine, isSeparator] at hc
    simp only [Bool.or_eq_true, beq_iff_eq] at hc
    rcases hc with (rfl | rfl) | hc | hc
    · exact absurd hleast (by decide)
    · exact absurd hleast (by decide)
    · omega
    · omega
  have hend : escape? src i = some (i + 2) := by
    apply escape?_of_one h (hletter 'x' (by decide)) (hletter 'u' (by decide))
    · exact fun h => absurd h hoctal
    · rintro (hreturn | hmark)
      · exact hfeed hreturn
      · exact absurd hmark (hletter '?' (by decide))
  have htells : Tells quote src i (unescape [backslash, c]) (i + 2) := tells_escape h hend
  rwa [unescape_lineEnd hc] at htells

theorem charOf?_of_half {n : Nat} (h : 0xD800 ≤ n ∧ n < 0xE000) : charOf? n = none := by
  rw [charOf?, dif_neg]
  unfold Nat.isValidChar
  omega

/-- An escape by number tells the character that it names, or else itself. -/
theorem tells_code (e : Code) (h : src.rest i = e.written ++ more) :
    Tells quote src i (((charOf? e.number).map fun c => [c]).getD e.written)
      (i + e.written.length) := by
  rw [← unescape_written]
  exact tells_escape h (escape?_of_code e h)

/-- An escape tells what is told of it, unless something behind it continues it. -/
theorem tells_spelling {x : Spelling quote} (hx : x.char? = none) (h : src.rest i = x.written ++ more)
    (hzero : x.isZero → ¬more.head?.any isOctal) (hopen : x.isOpen → ¬more.head?.any isFeed) :
    Tells quote src i x.told (i + x.written.length) := by
  cases x with
  | plain c hc => cases hx
  | single c hc =>
      have hletter (d : Char) (hd : ¬isSingle d) : c ≠ d := by
        rintro rfl
        exact hd hc
      have hoctal : ¬isOctal c := by
        intro hoctal
        simp [isSingle, hoctal] at hc
      have hend : escape? src i = some (i + 2) := by
        apply escape?_of_one h (hletter 'x' (by decide)) (hletter 'u' (by decide))
        · exact fun hc => absurd hc hoctal
        · rintro (hreturn | rfl)
          · exact absurd hreturn (hletter '\r' (by decide))
          · exact hopen rfl
      have htells : Tells quote src i (unescape [backslash, c]) (i + 2) := tells_escape h hend
      rwa [unescape_single hc] at htells
  | zero =>
      have hend : escape? src i = some (i + 2) :=
        escape?_of_one h (by decide) (by decide) (fun _ => hzero rfl) fun h => absurd h (by decide)
      exact tells_escape h hend
  | code e c hc =>
      have htells : Tells quote src i _ _ := tells_code e h
      rwa [hc] at htells
  | pair high low c hpair =>
      have hhigh : charOf? high.number = none :=
        charOf?_of_half ⟨hpair.highNumber.1, Nat.lt_trans hpair.highNumber.2 (by decide)⟩
      have hlow : charOf? low.number = none :=
        charOf?_of_half ⟨Nat.le_trans (by decide) hpair.lowNumber.1, hpair.lowNumber.2⟩
      have hfirst : src.rest i = high.written ++ (low.written ++ more) := by
        rw [h, ← List.append_assoc]
        rfl
      have htells : Tells quote src i _ _ := (tells_code high hfirst).trans
        (tells_code low (Source.rest_of_append hfirst))
      rw [hhigh, hlow] at htells
      rw [Spelling.written, List.length_append, ← Nat.add_assoc]
      exact htells
  | continued lineEnd hend =>
      simp only [lineEnds, List.mem_cons, List.not_mem_nil, or_false] at hend
      rcases hend with rfl | rfl | rfl | rfl | rfl
      · exact tells_lineEnd (by decide) h fun h => absurd h (by decide)
      · exact tells_lineEnd (by decide) h fun _ => hopen rfl
      · have hend : escape? src i = some (i + 3) := escape?_of_feed h (.inl rfl) (by decide)
        exact tells_escape h hend
      · exact tells_lineEnd (by decide) h fun h => absurd h (by decide)
      · exact tells_lineEnd (by decide) h fun h => absurd h (by decide)

/-- An escape that a separator of lines continues takes it along. -/
theorem tells_open {x : Spelling quote} (hopen : x.isOpen) {d : Char} (hd : isSeparator d)
    (h : src.rest i = x.written ++ d :: more) :
    Tells quote src i x.told (i + x.written.length + 1) := by
  have hfeed : isFeed d := by simp [isFeed, hd]
  cases x with
  | single c hc =>
      obtain rfl : c = '?' := by simpa [Spelling.isOpen] using hopen
      have hend : escape? src i = some (i + 3) := escape?_of_feed h (.inr rfl) hfeed
      have htells : Tells quote src i (unescape [backslash, '?', d]) (i + 3) := tells_escape h hend
      rwa [unescape_single hc] at htells
  | continued lineEnd hmem =>
      obtain rfl : lineEnd = ['\r'] := by simpa [Spelling.isOpen] using hopen
      have hend : escape? src i = some (i + 3) := escape?_of_feed h (.inl rfl) hfeed
      have htells : Tells quote src i (unescape [backslash, '\r', d]) (i + 3) := tells_escape h hend
      rwa [unescape_lineEnd (by decide)] at htells
  | plain | zero | code | pair => cases hopen

/-- Behind an escape stands the plain character of the spelling that follows, or else a backslash
or the closing quote. -/
theorem any_head?_written {p : Char → Bool} (hslash : ¬p backslash) (hquote : ¬p quote)
    (parts : List (Spelling quote)) (after : List Char) :
    (parts.flatMap Spelling.written ++ quote :: after).head?.any p
      = (parts.head?.bind Spelling.char?).any p := by
  cases parts with
  | nil => simpa using hquote
  | cons x parts => cases x <;> simp [Spelling.written, Spelling.char?, Code.written, hslash]

theorem exists_written_eq {x : Spelling quote} (hx : x.char? = none) :
    ∃ s, x.written = backslash :: s := by
  cases x with
  | plain c hc => cases hx
  | _ => exact ⟨_, rfl⟩

/-- No octal digit stands behind a zero. -/
theorem not_octal_behind {x : Spelling quote} {parts : List (Spelling quote)}
    (hapart : Spelling.AreApart (x :: parts)) (hzero : x.isZero) :
    ¬(parts.head?.bind Spelling.char?).any isOctal := by
  cases parts with
  | nil => exact Bool.false_ne_true
  | cons y parts =>
      have hjoins := (List.isChain_cons_cons.1 hapart).1
      rwa [Spelling.joins, hzero, Bool.true_and] at hjoins

/-- Behind an escape that takes nothing along no line feed and no separator continues it. -/
theorem not_feed_behind {x : Spelling quote} {parts : List (Spelling quote)}
    (hnot : ¬parts.head?.any x.takes) (hopen : x.isOpen) :
    ¬(parts.head?.bind Spelling.char?).any isFeed := by
  cases parts with
  | nil => exact Bool.false_ne_true
  | cons y parts =>
      have htakes : ¬x.takes y := hnot
      rw [Spelling.takes, hopen, Bool.true_and] at htakes
      cases y with
      | plain d hd =>
          have hne : d ≠ '\n' := by
            rintro rfl
            simp [isPlain] at hd
          simpa [Spelling.char?, isFeed, hne] using htakes
      | _ => exact Bool.false_ne_true

/-- An escape tells what is told of it, alone or with the separator that it takes along; behind that
stand the other spellings. -/
theorem exists_tells_escape (hquote : quote = singleQuote ∨ quote = doubleQuote) {after : List Char}
    {x : Spelling quote} (hx : x.char? = none) {parts : List (Spelling quote)}
    (hapart : Spelling.AreApart (x :: parts))
    (h : src.rest i = (x :: parts).flatMap Spelling.written ++ quote :: after) :
    ∃ (s : List Char) (parts' : List (Spelling quote)), parts'.length ≤ parts.length
      ∧ Spelling.AreApart parts'
      ∧ (x :: parts).flatMap Spelling.written = s ++ parts'.flatMap Spelling.written
      ∧ Spelling.toldAll (x :: parts) = x.told ++ Spelling.toldAll parts'
      ∧ Tells quote src i x.told (i + s.length) := by
  have hparts := List.isChain_of_isChain_cons hapart
  rw [List.flatMap_cons, List.append_assoc] at h
  by_cases htakes : parts.head?.any x.takes
  · cases parts with
    | nil => cases htakes
    | cons y parts =>
        have htakes : x.takes y := htakes
        obtain ⟨hopen, hseparator⟩ := Bool.and_eq_true_iff.1 htakes
        cases y with
        | plain d hd =>
            refine ⟨x.written ++ [d], parts, Nat.le_succ _, List.isChain_of_isChain_cons hparts,
              ?_, Spelling.toldAll_cons_of_takes htakes parts, ?_⟩
            · simp [Spelling.written]
            · rw [List.length_append, ← Nat.add_assoc]
              exact tells_open hopen hseparator h
        | _ => cases hseparator
  · have hbehind {p : Char → Bool} (hslash : ¬p backslash) (hsingle : ¬p singleQuote)
        (hdouble : ¬p doubleQuote) := any_head?_written hslash
      (show ¬p quote by rcases hquote with rfl | rfl <;> assumption) parts after
    refine ⟨x.written, parts, Nat.le_refl _, hparts, List.flatMap_cons,
      Spelling.toldAll_cons_of_not htakes, tells_spelling hx h (fun hzero => ?_) fun hopen => ?_⟩
    · rw [hbehind (by decide) (by decide) (by decide)]
      exact not_octal_behind hapart hzero
    · rw [hbehind (by decide) (by decide) (by decide)]
      exact not_feed_behind htakes hopen

/-- Plain text and spellings up to a quote tell the text and what is told of the spellings. -/
theorem tells_parts (hquote : quote = singleQuote ∨ quote = doubleQuote) {after : List Char} :
    (parts : List (Spelling quote)) → (front : List Char) →
    Spelling.AreApart parts → (∀ d ∈ front, isPlain quote d) → {i : Nat} →
    src.rest i = front ++ (parts.flatMap Spelling.written ++ quote :: after) →
    Tells quote src i (front ++ Spelling.toldAll parts)
      (i + (front ++ parts.flatMap Spelling.written).length)
  | [], front, _, hfront, i, h => by
      have htells := tells_text h hfront isPlain_quote
      simpa [Spelling.toldAll] using htells
  | x :: parts, front, hapart, hfront, i, h => by
      cases hx : x.char? with
      | some c =>
          -- a plain character joins the text in front of it
          obtain ⟨hc, rfl⟩ : ∃ hc, x = .plain c hc := by
            cases x <;> cases hx
            exact ⟨_, rfl⟩
          have hfront' : ∀ d ∈ front ++ [c], isPlain quote d :=
            List.forall_mem_append.2 ⟨hfront, fun d hd => by rwa [List.mem_singleton.1 hd]⟩
          have hnot : ¬parts.head?.any (Spelling.plain c hc).takes := by
            cases parts.head? <;> simp [Spelling.takes, Spelling.isOpen]
          have htells := tells_parts hquote parts (front ++ [c])
            (List.isChain_of_isChain_cons hapart) hfront' (i := i)
            (by simpa [Spelling.written] using h)
          rw [Spelling.toldAll_cons_of_not hnot]
          simpa [Spelling.written, Spelling.told, Spelling.value] using htells
      | none =>
          obtain ⟨text, htext⟩ := exists_written_eq hx
          have hslash : src.rest i = front ++ backslash
              :: (text ++ (parts.flatMap Spelling.written ++ quote :: after)) := by
            rw [h, List.flatMap_cons, htext]
            simp
          have hfronttells := tells_text hslash hfront isPlain_backslash
          have hrest := Source.rest_of_append h
          obtain ⟨s, parts', hlength, hapart', hwritten, htold, hescape⟩ :=
            exists_tells_escape hquote hx hapart hrest
          rw [hwritten, List.append_assoc] at hrest
          have htells := tells_parts hquote parts' [] hapart' (List.forall_mem_nil _)
            (Source.rest_of_append hrest)
          rw [htold, hwritten]
          have hall := (hfronttells.trans hescape).trans htells
          simpa [Nat.add_assoc] using hall
termination_by parts => parts.length

end Parts

/-! ## Strings -/

section Strings

variable {quote : Char} {after : List Char}

/-- A quote is no space, and nothing but a quote. -/
theorem quote_facts (hquote : quote = singleQuote ∨ quote = doubleQuote) :
    ¬isSpace quote ∧ quote ≠ '/' ∧ quote ≠ backslash := by
  rcases hquote with rfl | rfl <;> decide

/-- No part of a string starts at its closing quote. -/
theorem stringPart_quote (hquote : quote = singleQuote ∨ quote = doubleQuote)
    (h : src.rest i = quote :: after) : stringPart quote src i = none := by
  obtain ⟨hspace, hslash, hbackslash⟩ := quote_facts hquote
  have hescape : Grammar.escape src i = none := by
    have hnot : src.isAt i backslash = false := by
      rw [Source.isAt_eq, h]
      simpa using hbackslash
    unfold Grammar.escape immediate escape?
    rw [hnot]
    rfl
  have hcomment : Grammar.commentNode src i = none := by
    unfold Grammar.commentNode immediate
    rw [skipSpace_of_not h hspace, comment?_of_not h hslash]
    rfl
  unfold stringPart
  simp only [choice, fail, stringText_of_not h isPlain_quote, hescape, hcomment]

/-- The quotes of a string are no parts of it. -/
theorem stringValue_nodeOf {ns : List Node} (start stop first last : Nat)
    (hnamed : ∀ n ∈ ns, n.kind.isNamed) :
    stringValue src (nodeOf .string start stop ([markNode quote first] ++ (ns ++ [markNode quote last])))
      = ns.flatMap (partValue src) := by
  have hparts : ([markNode quote first] ++ (ns ++ [markNode quote last])).filter (·.kind.isNamed)
      = ns := by
    have hmark (i : Nat) : (markNode quote i).kind.isNamed = false := rfl
    simp only [List.filter_append, List.filter_cons, List.filter_nil, hmark,
      List.filter_eq_self.2 hnamed]
    simp
  unfold stringValue literalValue literalPieces
  rw [nodeOf, Node.children, hparts, List.flatMap_map]
  refine List.flatMap_congr fun part _ => ?_
  unfold partValue
  split <;> rfl

/-- A string is its quotes and the parts between them. -/
theorem quotedString_of_parts (hquote : quote = singleQuote ∨ quote = doubleQuote)
    {more : List Char} {ns : List Node} {stop : Nat} (h : src.rest i = quote :: more)
    (hparts : Grammar.stringParts quote src (i + 1) = some (ns, stop))
    (hclose : src.rest stop = quote :: after) :
    Grammar.quotedString quote src i = some ([nodeOf .string i (stop + 1)
      ([markNode quote i] ++ (ns ++ [markNode quote stop]))], stop + 1) := by
  obtain ⟨hspace, hslash, -⟩ := quote_facts hquote
  have hopening : mark (String.singleton quote) src i = some ([markNode quote i], i + 1) := by
    unfold mark
    rw [skipTrivia_of_not h hspace hslash, immediateMark_singleton quote h]
  unfold Grammar.quotedString node
  simp only [seq, andThen, hopening, hparts, skipSpace_of_not hclose hspace,
    immediateMark_singleton quote hclose, skipTrivia_of_not h hspace hslash]

theorem exists_quotedString (hquote : quote = singleQuote ∨ quote = doubleQuote)
    {parts : List (Spelling quote)} (hapart : Spelling.AreApart parts)
    (h : src.rest i = quote :: (parts.flatMap Spelling.written ++ quote :: after)) :
    ∃ n, Grammar.quotedString quote src i
        = some ([n], i + 1 + (parts.flatMap Spelling.written).length + 1)
      ∧ n.kind = .string ∧ stringValue src n = Spelling.toldAll parts := by
  have hinside : src.rest (i + 1) = parts.flatMap Spelling.written ++ quote :: after := by
    rw [Source.rest_add, h]
    rfl
  have hclose := Source.rest_of_append hinside
  obtain ⟨ns, hsteps, hnamed, hvalue⟩ := tells_parts hquote parts [] hapart
    (List.forall_mem_nil _) hinside
  have hmany := hsteps.many_eq (stringPart_quote hquote hclose)
    (Nat.le_of_lt (Source.lt_size_of_rest hclose))
  refine ⟨_, quotedString_of_parts hquote h hmany hclose, rfl, ?_⟩
  rw [stringValue_nodeOf _ _ _ _ hnamed, hvalue, List.nil_append]

/-- Where one kind of quote stands no string with the other kind is read. -/
theorem quotedString_of_ne {other : Char} (hquote : quote = singleQuote ∨ quote = doubleQuote)
    (hne : other ≠ quote) (h : src.rest i = quote :: after) :
    Grammar.quotedString other src i = none := by
  obtain ⟨hspace, hslash, -⟩ := quote_facts hquote
  have hopening : mark (String.singleton other) src i = none := by
    unfold mark
    rw [skipTrivia_of_not h hspace hslash, immediateMark_singleton_of_ne other h hne]
  unfold Grammar.quotedString node
  simp only [seq, andThen, hopening]

theorem exists_string (l : Literal) (before after : List Char) :
    ∃ n, Grammar.string ⟨(before ++ l.written ++ after).toArray⟩ before.length
        = some ([n], before.length + l.written.length)
      ∧ n.kind = .string
      ∧ stringValue ⟨(before ++ l.written ++ after).toArray⟩ n = l.told := by
  have hrest : (Source.mk (before ++ l.written ++ after).toArray).rest before.length
      = l.quote :: (l.parts.flatMap Spelling.written ++ l.quote :: after) := by
    rw [Source.rest, List.append_assoc, List.drop_left]
    simp [Literal.written]
  have hlength : before.length + l.written.length
      = before.length + 1 + (l.parts.flatMap Spelling.written).length + 1 := by
    simp [Literal.written]
    omega
  obtain ⟨n, hread, hkind, htold⟩ := exists_quotedString l.isQuote l.apart hrest
  refine ⟨n, ?_, hkind, htold⟩
  rw [hlength]
  unfold Grammar.string choice
  by_cases hsingle : l.quote = singleQuote
  · rw [← hsingle, hread]
  · rw [quotedString_of_ne l.isQuote (Ne.symm hsingle) hrest]
    dsimp only
    unfold choice
    rw [← l.isQuote.resolve_left hsingle, hread]

/-- **Strings.** Wherever a string is written, in whatever spellings, one node is read from quote to
quote, and what is told of it is what is told of the spellings. That is the string, unless a
character is written as a pair, or a separator of lines stands behind an escape that takes it
along; then it is not. -/
theorem string_told (l : Literal) (before after : List Char) :
    ∃ n, Grammar.string ⟨(before ++ l.written ++ after).toArray⟩ before.length
        = some ([n], before.length + l.written.length)
      ∧ n.kind = .string
      ∧ stringValue ⟨(before ++ l.written ++ after).toArray⟩ n = l.told
      ∧ (l.told = l.value ↔ l.IsFaithful) := by
  obtain ⟨n, hread, hkind, htold⟩ := exists_string l before after
  exact ⟨n, hread, hkind, htold, Literal.told_eq_value_iff⟩

end Strings

/-- A string in most of the spellings. -/
def greeting : Literal where
  quote := singleQuote
  isQuote := .inl rfl
  parts := [.code ⟨.byte, ['c', '7'], List.all_eq_true.1 rfl, rfl⟩ 'Ç' rfl, .plain 'a' rfl,
    .single 'n' rfl, .continued ['\r', '\n'] (by decide), .single '\'' rfl, .zero,
    .code ⟨.unit, ['2', '0', 'A', 'c'], List.all_eq_true.1 rfl, rfl⟩ '€' (by decide), .plain '"' rfl,
    .code ⟨.point, ['0', '1', 'F', '6', '0', '0'], List.all_eq_true.1 rfl, by decide⟩ '😀' (by decide)]
  apart := by decide

/-- It is told. -/
theorem string_told_greeting :
    ∃ n, Grammar.string ⟨("a = ".toList ++ greeting.written ++ [';']).toArray⟩ 4
        = some ([n], 4 + greeting.written.length)
      ∧ stringValue ⟨("a = ".toList ++ greeting.written ++ [';']).toArray⟩ n
        = "Ça\n'\x00€\x22😀".toList := by
  obtain ⟨n, hread, -, htold, hvalue⟩ := string_told greeting "a = ".toList [';']
  have hfaithful : greeting.IsFaithful := ⟨by decide, by decide⟩
  refine ⟨n, hread, ?_⟩
  rw [htold, hvalue.2 hfaithful]
  rfl

/-- A string in whose front one character is written as a pair. -/
def pairText : Literal where
  quote := doubleQuote
  isQuote := .inr rfl
  parts := [.pair ⟨.unit, ['D', '8', '3', 'D'], List.all_eq_true.1 rfl, rfl⟩
      ⟨.unit, ['D', 'E', '0', '0'], List.all_eq_true.1 rfl, rfl⟩ '😀'
      ⟨rfl, rfl, by decide, by decide, by decide⟩,
    .plain ' ' rfl, .plain 'o' rfl, .plain 'k' rfl]
  apart := by decide

/-- Its character is not told. -/
theorem pair_untold :
    ¬∀ (l : Literal) (before after : List Char) (n : Node) (stop : Nat),
      Grammar.string ⟨(before ++ l.written ++ after).toArray⟩ before.length = some ([n], stop) →
      stringValue ⟨(before ++ l.written ++ after).toArray⟩ n = l.value := by
  intro h
  obtain ⟨n, hread, -, htold⟩ := exists_string pairText [] []
  have hvalue := h pairText [] [] n _ hread
  rw [htold] at hvalue
  revert hvalue
  decide

end ContentGraph.Component
