import ContentGraph.Proofs.Glob.Meaning
import ContentGraph.Proofs.Path.Pieces
import ContentGraph.Proofs.Text.Encoding

/-!
# Patterns for directories and extensions

A pattern of stars around the name of a directory matches the paths of all that is in such a
directory, at any depth (`isMatch_inDirectory`). A pattern of stars in front of two extensions
matches the paths that end in one of them (`isMatch_withExtensions`).
-/

namespace ContentGraph.Glob

open ContentGraph.Path (splitOn joinSlash)

/-! ## Reading -/

/-- Holds for characters that stand for themselves in patterns. -/
def isLiteral (c : Char) : Bool := c ∉ ['?', '*', '[', '\x7b', '\x7d', ',', '\\']

section Reading

variable (d : Draft) (previous : Option Char)

theorem readFrom_literal {c : Char} (h : isLiteral c = true) (s : List Char) :
    readFrom d previous (c :: s) = readFrom (d.push (.letter c)) (some c) s := by
  unfold isLiteral at h
  simp only [decide_eq_true_eq, List.mem_cons, List.not_mem_nil, or_false, not_or] at h
  obtain ⟨hone, hstar, hclass, hopen, hclose, hcomma, hbackslash⟩ := h
  rw [readFrom]
  all_goals grind

theorem readFrom_literals {name : List Char} (h : name.all isLiteral = true) (s : List Char) :
    readFrom d previous (name ++ s)
      = readFrom ⟨(name.map Token.letter).reverse ++ d.tokens, d.groups⟩
        (name.getLast?.or previous) s := by
  induction name generalizing d previous with
  | nil => rfl
  | cons c name ih =>
      rw [List.all_cons, Bool.and_eq_true] at h
      rw [List.cons_append, readFrom_literal d previous h.1, ih _ _ h.2]
      have hprevious : name.getLast?.or (some c) = (c :: name).getLast?.or previous := by
        rw [List.getLast?_cons]
        cases name.getLast? <;> rfl
      rw [hprevious, List.map_cons, List.reverse_cons, List.append_assoc]
      rfl

theorem readFrom_stars (s : List Char) :
    readFrom d previous ('*' :: '*' :: s)
      = readFrom (d.twoStars previous s).1 ((lastOf s (d.twoStars previous s).2).getD '*')
        (d.twoStars previous s).2 := by
  rw [readFrom]

theorem readFrom_star {c : Char} (h : c ≠ '*') (s : List Char) :
    readFrom d previous ('*' :: c :: s) = readFrom (d.push .run) (some '*') (c :: s) := by
  rw [readFrom]
  intro rest heq
  exact h (List.cons.inj heq).1

theorem readFrom_open (s : List Char) :
    readFrom d previous ('\x7b' :: s) = readFrom d.openGroup (some '\x7b') s := by
  rw [readFrom]

theorem readFrom_comma (s : List Char) :
    readFrom d previous (',' :: s) = readFrom d.comma (some ',') s := by
  rw [readFrom]

theorem readFrom_close {closed : Draft} (h : d.closeGroup = .ok closed) (s : List Char) :
    readFrom d previous ('\x7d' :: s) = readFrom closed (some '\x7d') s := by
  rw [readFrom, h]

end Reading

/-- What is in a directory of a name, at any depth. -/
def inDirectory (name : List Char) : List Token :=
  .ancestors :: (name.map Token.letter ++ [.descendants])

theorem parse_inDirectory {name : List Char} (h : name.all isLiteral = true) :
    parse (String.ofList ("**/".toList ++ name ++ "/**".toList)) = .ok (inDirectory name) := by
  have hslash : (name ++ ['/']).all isLiteral = true := by
    rw [List.all_append, h]
    rfl
  have hread : readFrom {} none ('*' :: '*' :: '/' :: (name ++ ['/'] ++ ['*', '*']))
      = .ok ⟨(inDirectory name).reverse, []⟩ := by
    rw [readFrom_stars]
    show readFrom ⟨[.ancestors], []⟩ _ (name ++ ['/'] ++ ['*', '*']) = _
    rw [readFrom_literals _ _ hslash, List.getLast?_concat, readFrom_stars]
    have hstars : Draft.twoStars
        ⟨((name ++ ['/']).map Token.letter).reverse ++ [.ancestors], []⟩ (some '/') []
        = (⟨(inDirectory name).reverse, []⟩, []) := by
      rw [List.map_append, List.reverse_append]
      unfold inDirectory
      rw [List.reverse_cons, List.reverse_append]
      rfl
    rw [Option.some_or, hstars]
    dsimp only
    rw [readFrom]
  have htext : (String.ofList ("**/".toList ++ name ++ "/**".toList)).toList
      = '*' :: '*' :: '/' :: (name ++ ['/'] ++ ['*', '*']) := by
    rw [String.toList_ofList, List.append_assoc, List.append_assoc]
    rfl
  unfold parse
  rw [htext, hread]
  simp

/-- Files with one of two extensions. -/
def withExtensions (a b : List Char) : List Token :=
  [.ancestors, .run, .letter '.', .choice [a.map Token.letter, b.map Token.letter]]

theorem parse_withExtensions {a b : List Char} (ha : a.all isLiteral = true)
    (hb : b.all isLiteral = true) :
    parse (String.ofList ("**/*.\x7b".toList ++ (a ++ ',' :: (b ++ ['\x7d']))))
      = .ok (withExtensions a b) := by
  have hread : readFrom {} none
      ('*' :: '*' :: '/' :: '*' :: '.' :: '\x7b' :: (a ++ ',' :: (b ++ ['\x7d'])))
      = .ok ⟨(withExtensions a b).reverse, []⟩ := by
    rw [readFrom_stars]
    show readFrom ⟨[.ancestors], []⟩ _ ('*' :: '.' :: '\x7b' :: (a ++ ',' :: (b ++ ['\x7d']))) = _
    have hclosed : Draft.closeGroup ⟨(b.map Token.letter).reverse ++ [],
        [⟨[.letter '.', .run, .ancestors], [a.map Token.letter]⟩]⟩
        = .ok ⟨(withExtensions a b).reverse, []⟩ := by
      rw [List.append_nil]
      unfold Draft.closeGroup
      dsimp only
      rw [List.reverse_reverse]
      rfl
    have hcomma : Draft.comma ⟨(a.map Token.letter).reverse ++ [],
        [⟨[.letter '.', .run, .ancestors], []⟩]⟩
        = ⟨[], [⟨[.letter '.', .run, .ancestors], [a.map Token.letter]⟩]⟩ := by
      rw [List.append_nil]
      unfold Draft.comma
      dsimp only
      rw [List.reverse_reverse]
    rw [readFrom_star _ _ (by decide), readFrom_literal _ _ (by decide), readFrom_open]
    show readFrom ⟨[], [⟨[.letter '.', .run, .ancestors], []⟩]⟩ _ (a ++ ',' :: (b ++ ['\x7d'])) = _
    rw [readFrom_literals _ _ ha, readFrom_comma, hcomma, readFrom_literals _ _ hb,
      readFrom_close _ _ hclosed, readFrom]
  have htext : (String.ofList ("**/*.\x7b".toList ++ (a ++ ',' :: (b ++ ['\x7d'])))).toList
      = '*' :: '*' :: '/' :: '*' :: '.' :: '\x7b' :: (a ++ ',' :: (b ++ ['\x7d'])) := by
    rw [String.toList_ofList]
    rfl
  unfold parse
  rw [htext, hread]
  simp

/-! ## Meaning -/

theorem tokensStand_letters {name : List Char} {w : Bytes} :
    TokensStand (name.map Token.letter) w ↔ w = Utf8.encode name := by
  induction name generalizing w with
  | nil => rw [Utf8.encode_nil]; exact Iff.rfl
  | cons c name ih =>
      have hcons : Utf8.encode (c :: name) = Utf8.encode [c] ++ Utf8.encode name :=
        Utf8.encode_append [c] name
      rw [hcons]
      constructor
      · rintro ⟨u, v, rfl, rfl, hv⟩
        rw [ih.1 hv]
      · rintro rfl
        exact ⟨_, _, rfl, rfl, ih.2 rfl⟩

theorem tokensStand_inDirectory {name : List Char} {w : Bytes} :
    TokensStand (inDirectory name) w
      ↔ ∃ u v, w = u ++ (Utf8.encode name ++ slash :: v) ∧ (u = [] ∨ ∃ p, u = p ++ [slash]) := by
  constructor
  · rintro ⟨u, rest, rfl, hu, hrest⟩
    obtain ⟨x, y, rfl, hx, z, _, rfl, ⟨v, rfl⟩, rfl⟩ := tokensStand_append.1 hrest
    exact ⟨u, v, by rw [tokensStand_letters.1 hx, List.append_nil], hu⟩
  · rintro ⟨u, v, rfl, hu⟩
    exact ⟨u, _, rfl, hu, tokensStand_append.2 ⟨_, _, rfl, tokensStand_letters.2 rfl,
      slash :: v, [], (List.append_nil _).symm, ⟨v, rfl⟩, rfl⟩⟩

theorem slash_eq : slash = Utf8.byteOf '/' := rfl

/-- The bytes of joined texts are joined as well. -/
theorem encode_joinSlash (pieces : List (List Char)) :
    Utf8.encode (joinSlash pieces) = [slash].intercalate (pieces.map Utf8.encode) := by
  induction pieces with
  | nil => exact Utf8.encode_nil
  | cons first rest ih =>
      cases rest with
      | nil => rw [Path.joinSlash_singleton, List.map_singleton, List.intercalate_singleton]
      | cons second rest =>
          rw [Path.joinSlash_cons_cons, Utf8.encode_append, Utf8.encode_cons,
            Utf8.encodeChar_of_lt (by decide), ih, slash_eq]
          rfl

/-- A text is cut at slashes as its bytes are. -/
theorem splitOn_encode (s : List Char) :
    splitOn slash (Utf8.encode s) = (splitOn '/' s).map Utf8.encode := by
  have hcut : Utf8.encode s = [slash].intercalate ((s.splitOn '/').map Utf8.encode) := by
    rw [← encode_joinSlash, joinSlash, List.intercalate_splitOn]
  rw [Path.splitOn_eq, Path.splitOn_eq, hcut, List.splitOn_intercalate]
  · intro piece hpiece
    obtain ⟨p, hp, rfl⟩ := List.mem_map.1 hpiece
    rw [← Path.splitOn_eq] at hp
    rw [slash_eq, Utf8.mem_encode_iff (by decide)]
    exact Path.not_mem_of_mem_splitOn hp
  · simp

theorem isMatch_iff {ts : List Token} (hname : looksAtFileName ts = false)
    (hts : ts ≠ [.ancestors]) (path : String) :
    isMatch ts path = true ↔ TokensStand ts (Utf8.encode path.toList) := by
  unfold isMatch
  dsimp only
  rw [hname, Bool.and_false, Bool.not_false, Bool.and_true, covers_iff, or_iff_right hts]

theorem looksAtFileName_inDirectory (name : List Char) :
    looksAtFileName (inDirectory name) = false := by
  have hletters : letters? (name.map Token.letter ++ [.descendants]) = none := by
    induction name with
    | nil => rfl
    | cons c name ih =>
        rw [List.map_cons, List.cons_append, letters?, ih]
        rfl
  have hfileName : isFileName (inDirectory name) = false := by
    unfold inDirectory isFileName
    dsimp only
    rw [hletters]
    rfl
  have hextension : isExtension (inDirectory name) = false := by
    cases name <;> rfl
  have hdot : endsInDot (inDirectory name) = false := by
    unfold endsInDot inDirectory
    rw [← List.cons_append, List.getLast?_concat]
  unfold looksAtFileName
  rw [hfileName, hextension, hdot]
  rfl

/-- **Directories.** What is matched is what lies in a directory of that name. -/
theorem isMatch_inDirectory {name : List Char} (h : '/' ∉ name) (path : String) :
    isMatch (inDirectory name) path = true ↔ name ∈ (splitOn '/' path.toList).dropLast := by
  have hslash : slash ∉ Utf8.encode name := by
    rwa [slash_eq, Utf8.mem_encode_iff (by decide)]
  have hts : inDirectory name ≠ [.ancestors] := by
    unfold inDirectory
    simp
  rw [isMatch_iff (looksAtFileName_inDirectory name) hts, tokensStand_inDirectory,
    ← Path.mem_dropLast_splitOn_iff hslash, splitOn_encode, ← List.map_dropLast,
    List.mem_map_of_injective fun _ _ => Utf8.encode_injective]

theorem tokensStand_withExtensions {a b : List Char} (ha : a ≠ []) (hb : b ≠ []) {w : Bytes} :
    TokensStand (withExtensions a b) w
      ↔ Utf8.encode ('.' :: a) <:+ w ∨ Utf8.encode ('.' :: b) <:+ w := by
  have hvoid {name : List Char} (h : name ≠ []) : tokensVoid (name.map Token.letter) = false := by
    obtain ⟨c, rest, rfl⟩ := List.exists_cons_of_ne_nil h
    rfl
  have hdot (name : List Char) :
      Utf8.encode ('.' :: name) = Utf8.encode ['.'] ++ Utf8.encode name :=
    Utf8.encode_append ['.'] name
  constructor
  · rintro ⟨u, _, rfl, -, v, _, rfl, -, _, _, rfl, rfl, x, _, rfl, hx, rfl⟩
    rcases hx with ⟨hnone, -⟩ | ⟨-, hx⟩ | ⟨-, hx⟩ | hx
    · simp [branchesVoid, hvoid ha] at hnone
    · refine .inl ⟨u ++ v, ?_⟩
      rw [tokensStand_letters.1 hx, List.append_nil, hdot a, List.append_assoc]
    · refine .inr ⟨u ++ v, ?_⟩
      rw [tokensStand_letters.1 hx, List.append_nil, hdot b, List.append_assoc]
    · exact hx.elim
  · have hstands {name : List Char} (u : Bytes)
        (hname : BranchStands [a.map Token.letter, b.map Token.letter] (Utf8.encode name)) :
        TokensStand (withExtensions a b) (u ++ Utf8.encode ('.' :: name)) :=
      ⟨[], _, rfl, .inl rfl, u, _, rfl, trivial, _, _, hdot name, rfl, Utf8.encode name, [],
        (List.append_nil _).symm, .inr hname, rfl⟩
    rintro (⟨u, rfl⟩ | ⟨u, rfl⟩)
    · exact hstands u (.inl ⟨hvoid ha, tokensStand_letters.2 rfl⟩)
    · exact hstands u (.inr (.inl ⟨hvoid hb, tokensStand_letters.2 rfl⟩))

/-- **Extensions.** What is matched is what ends in one of them. -/
theorem isMatch_withExtensions {a b : List Char} (ha : a ≠ [] ∧ a.all (·.toNat < 128) = true)
    (hb : b ≠ [] ∧ b.all (·.toNat < 128) = true) (path : String) :
    isMatch (withExtensions a b) path = true
      ↔ '.' :: a <:+ path.toList ∨ '.' :: b <:+ path.toList := by
  have hends {name : List Char} (h : name.all (·.toNat < 128) = true) :
      Utf8.encode ('.' :: name) <:+ Utf8.encode path.toList ↔ '.' :: name <:+ path.toList := by
    refine Utf8.encode_suffix_iff (List.forall_mem_cons.2 ⟨by decide, fun c hc => ?_⟩)
    exact of_decide_eq_true (List.all_eq_true.1 h c hc)
  have hts : withExtensions a b ≠ [.ancestors] := by
    unfold withExtensions
    simp
  rw [isMatch_iff rfl hts, tokensStand_withExtensions ha.1 hb.1, hends ha.2, hends hb.2]

end ContentGraph.Glob
