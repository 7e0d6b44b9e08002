import ContentGraph.Glob.Match
import Mathlib.Data.List.Infix

/-!
# What patterns mean

Each token stands for some bytes, and a pattern stands for the bytes that its tokens stand for one
behind the other. Matching, which keeps all that may be left of a path, agrees with this meaning
(`covers_iff`).
-/

namespace ContentGraph.Glob

/-! ## Meaning -/

mutual

/-- Holds for the bytes that a token stands for. -/
def Token.Stands : Token → Bytes → Prop
  | .letter c, w => w = Utf8.encode [c]
  | .one, w => ∃ b, w = [b]
  | .run, _ => True
  | .ancestors, w => w = [] ∨ ∃ v, w = v ++ [slash]
  | .descendants, w => ∃ v, w = slash :: v
  | .between, w => w = [slash] ∨ ∃ v, w = slash :: (v ++ [slash])
  | .oneOf negated ranges, w => ∃ b, classHas negated ranges b = true ∧ w = [b]
  | .choice branches, w => (branchesVoid branches = true ∧ w = []) ∨ BranchStands branches w

/-- Holds for the bytes that tokens stand for, one behind the other. -/
def TokensStand : List Token → Bytes → Prop
  | [], w => w = []
  | t :: ts, w => ∃ u v, w = u ++ v ∧ t.Stands u ∧ TokensStand ts v

/-- Holds for the bytes that a branch stands for which is not void. -/
def BranchStands : List (List Token) → Bytes → Prop
  | [], _ => False
  | b :: bs, w => (tokensVoid b = false ∧ TokensStand b w) ∨ BranchStands bs w

end

theorem tokensStand_append {ts us : List Token} {w : Bytes} :
    TokensStand (ts ++ us) w ↔ ∃ u v, w = u ++ v ∧ TokensStand ts u ∧ TokensStand us v := by
  induction ts generalizing w with
  | nil =>
      constructor
      · intro h
        exact ⟨[], w, rfl, rfl, h⟩
      · rintro ⟨u, v, rfl, rfl, h⟩
        exact h
  | cons t ts ih =>
      constructor
      · rintro ⟨u, v, rfl, ht, hrest⟩
        obtain ⟨x, y, rfl, hts, hus⟩ := ih.1 hrest
        exact ⟨u ++ x, y, (List.append_assoc _ _ _).symm, ⟨u, x, rfl, ht, hts⟩, hus⟩
      · rintro ⟨_, y, rfl, ⟨u, x, rfl, ht, hts⟩, hus⟩
        exact ⟨u, x ++ y, List.append_assoc _ _ _, ht, ih.2 ⟨x, y, rfl, hts, hus⟩⟩

/-! ## What single steps leave -/

theorem dropBytes?_eq_some_iff {bytes s r : Bytes} :
    dropBytes? bytes s = some r ↔ s = bytes ++ r := by
  induction bytes generalizing s with
  | nil => simp [dropBytes?]
  | cons b bytes ih =>
      cases s with
      | nil => simp [dropBytes?]
      | cons c s =>
          unfold dropBytes?
          rw [List.cons_append, List.cons.injEq]
          split
          · next h => rw [ih, and_iff_right h.symm]
          · next h => exact iff_of_false (fun hnone => nomatch hnone) fun heq => h heq.1.symm

theorem mem_filterMap_dropBytes? {bytes r : Bytes} {rests : List Bytes} :
    r ∈ rests.filterMap (dropBytes? bytes) ↔ bytes ++ r ∈ rests := by
  rw [List.mem_filterMap]
  constructor
  · rintro ⟨s, hs, hr⟩
    rwa [← dropBytes?_eq_some_iff.1 hr]
  · intro h
    exact ⟨_, h, dropBytes?_eq_some_iff.2 rfl⟩

theorem mem_filterMap_dropByte? {ok : UInt8 → Bool} {r : Bytes} {rests : List Bytes} :
    r ∈ rests.filterMap (dropByte? ok) ↔ ∃ b, ok b = true ∧ b :: r ∈ rests := by
  rw [List.mem_filterMap]
  constructor
  · rintro ⟨s, hs, hr⟩
    cases s with
    | nil => cases hr
    | cons b s =>
        rw [dropByte?, Option.ite_none_right_eq_some] at hr
        obtain ⟨hb, heq⟩ := hr
        obtain rfl := Option.some.inj heq
        exact ⟨b, hb, hs⟩
  · rintro ⟨b, hb, hmem⟩
    exact ⟨b :: r, hmem, if_pos hb⟩

theorem mem_skipSlash {r : Bytes} {rests : List Bytes} :
    r ∈ skipSlash rests ↔ slash :: r ∈ rests := by
  unfold skipSlash
  rw [mem_filterMap_dropByte?]
  constructor
  · rintro ⟨b, hb, hmem⟩
    rwa [← beq_iff_eq.1 hb]
  · intro h
    exact ⟨slash, beq_self_eq_true _, h⟩

theorem mem_ends {r s : Bytes} : r ∈ ends s ↔ r <:+ s := by
  induction s with
  | nil => rw [List.suffix_nil]; exact List.mem_singleton
  | cons b s ih =>
      unfold ends
      rw [List.mem_cons, ih, List.suffix_cons_iff]

/-- Holds for rests of one path. -/
def AreRests (path : Bytes) (rests : List Bytes) : Prop := ∀ r ∈ rests, r <:+ path

/-- The longer of two rests, as `skipAny` chooses it. -/
theorem mem_foldl_longer (r : Bytes) (rs : List Bytes) :
    let longest := rs.foldl (fun a b => if a.length < b.length then b else a) r
    longest ∈ r :: rs ∧ ∀ s ∈ r :: rs, s.length ≤ longest.length := by
  induction rs generalizing r with
  | nil => simp
  | cons b rs ih =>
      dsimp only at ih ⊢
      rw [List.foldl_cons]
      split
      · next hlt =>
        obtain ⟨hmem, hle⟩ := ih b
        refine ⟨List.mem_cons_of_mem _ hmem, fun s hs => ?_⟩
        rcases List.mem_cons.1 hs with rfl | hs
        · exact hlt.le.trans (hle b List.mem_cons_self)
        · exact hle s hs
      · next hge =>
        obtain ⟨hmem, hle⟩ := ih r
        refine ⟨?_, fun s hs => ?_⟩
        · rcases List.mem_cons.1 hmem with heq | hmem
          · exact List.mem_cons.2 (.inl heq)
          · exact List.mem_cons_of_mem _ (List.mem_cons_of_mem _ hmem)
        · rcases List.mem_cons.1 hs with rfl | hs
          · exact hle _ List.mem_cons_self
          · rcases List.mem_cons.1 hs with rfl | hs
            · exact (Nat.le_of_not_lt hge).trans (hle r List.mem_cons_self)
            · exact hle s (List.mem_cons_of_mem _ hs)

/-- Any bytes leave every end of every rest. -/
theorem mem_skipAny {path r : Bytes} {rests : List Bytes} (h : AreRests path rests) :
    r ∈ skipAny rests ↔ ∃ w, w ++ r ∈ rests := by
  cases rests with
  | nil => simp [skipAny]
  | cons s rests =>
      unfold skipAny
      dsimp only
      rw [mem_ends]
      obtain ⟨hmem, hle⟩ := mem_foldl_longer s rests
      constructor
      · rintro ⟨w, hw⟩
        exact ⟨w, hw ▸ hmem⟩
      · rintro ⟨w, hw⟩
        -- of two rests of one path the shorter one ends the longer one
        have hend := List.suffix_of_suffix_length_le (h _ hw) (h _ hmem) (hle _ hw)
        exact (List.suffix_append w r).trans hend

/-! ## What tokens leave -/

theorem AreRests.of_iff {path : Bytes} {rests left : List Bytes} (h : AreRests path rests)
    {p : Bytes → Prop} (hleft : ∀ r, r ∈ left ↔ ∃ w, p w ∧ w ++ r ∈ rests) :
    AreRests path left := by
  intro r hr
  obtain ⟨w, -, hw⟩ := (hleft r).1 hr
  exact (List.suffix_append w r).trans (h _ hw)

theorem AreRests.skipSlash {path : Bytes} {rests : List Bytes} (h : AreRests path rests) :
    AreRests path (skipSlash rests) := by
  intro r hr
  exact (List.suffix_cons slash r).trans (h _ (mem_skipSlash.1 hr))

theorem not_branchStands_of_void {branches : List (List Token)} (h : branchesVoid branches = true)
    (w : Bytes) : ¬BranchStands branches w := by
  induction branches with
  | nil => exact id
  | cons b bs ih =>
      rw [branchesVoid, Bool.and_eq_true] at h
      rintro (⟨hb, -⟩ | hbs)
      · rw [h.1] at hb
        cases hb
      · exact ih h.2 hbs

mutual

/-- A token leaves what stands behind the bytes that it stands for. -/
theorem Token.mem_after {path : Bytes} : (t : Token) → {rests : List Bytes} →
    AreRests path rests → ∀ r, r ∈ t.after rests ↔ ∃ w, t.Stands w ∧ w ++ r ∈ rests
  | .letter c, rests, _, r => by
      unfold Token.after Token.Stands
      rw [mem_filterMap_dropBytes?, exists_eq_left]
  | .one, rests, _, r => by
      unfold Token.after Token.Stands
      rw [mem_filterMap_dropByte?]
      simp
  | .run, rests, h, r => by
      unfold Token.after Token.Stands
      rw [mem_skipAny h]
      simp
  | .ancestors, rests, h, r => by
      unfold Token.after Token.Stands
      rw [List.mem_append, mem_skipSlash, mem_skipAny h]
      simp [or_and_right, exists_or]
  | .descendants, rests, h, r => by
      unfold Token.after Token.Stands
      rw [mem_skipAny h.skipSlash]
      simp [mem_skipSlash]
  | .between, rests, h, r => by
      unfold Token.after Token.Stands
      rw [List.mem_append, mem_skipSlash, mem_skipSlash, mem_skipAny h.skipSlash]
      simp [or_and_right, exists_or, mem_skipSlash]
  | .oneOf negated ranges, rests, _, r => by
      unfold Token.after Token.Stands
      rw [mem_filterMap_dropByte?]
      simp
  | .choice branches, rests, h, r => by
      unfold Token.after Token.Stands
      split
      · next hvoid =>
        simp [hvoid, not_branchStands_of_void hvoid]
      · next hvoid =>
        rw [mem_branchesAfter branches h r]
        simp [hvoid]

/-- Tokens leave what stands behind the bytes that they stand for. -/
theorem mem_tokensAfter {path : Bytes} : (ts : List Token) → {rests : List Bytes} →
    AreRests path rests → ∀ r, r ∈ tokensAfter rests ts ↔ ∃ w, TokensStand ts w ∧ w ++ r ∈ rests
  | [], rests, _, r => by
      unfold tokensAfter TokensStand
      simp
  | t :: ts, rests, h, r => by
      have ht := t.mem_after h
      unfold tokensAfter TokensStand
      rw [mem_tokensAfter ts (h.of_iff ht) r]
      constructor
      · rintro ⟨v, hv, hleft⟩
        obtain ⟨u, hu, hmem⟩ := (ht _).1 hleft
        exact ⟨u ++ v, ⟨u, v, rfl, hu, hv⟩, by rwa [List.append_assoc]⟩
      · rintro ⟨_, ⟨u, v, rfl, hu, hv⟩, hmem⟩
        exact ⟨v, hv, (ht _).2 ⟨u, hu, by rwa [← List.append_assoc]⟩⟩

/-- Branches leave what stands behind the bytes that one of them stands for. -/
theorem mem_branchesAfter {path : Bytes} : (bs : List (List Token)) → {rests : List Bytes} →
    AreRests path rests → ∀ r, r ∈ branchesAfter rests bs ↔ ∃ w, BranchStands bs w ∧ w ++ r ∈ rests
  | [], rests, _, r => by
      unfold branchesAfter BranchStands
      simp
  | b :: bs, rests, h, r => by
      unfold branchesAfter BranchStands
      rw [List.mem_append, mem_branchesAfter bs h r]
      split
      · next hvoid => simp [hvoid]
      · next hvoid =>
        rw [mem_tokensAfter b h r]
        simp [hvoid, or_and_right, exists_or]

end

/-! ## Matching -/

/-- **Matching.** A pattern covers the paths that its tokens stand for; leading directories alone
cover any path. -/
theorem covers_iff {ts : List Token} {path : Bytes} :
    covers ts path = true ↔ ts = [.ancestors] ∨ TokensStand ts path := by
  have htokens : (tokensAfter [path] ts).any (·.isEmpty) = true ↔ TokensStand ts path := by
    have hpath : AreRests path [path] := fun r hr => List.mem_singleton.1 hr ▸ List.suffix_refl r
    rw [List.any_eq_true]
    constructor
    · rintro ⟨r, hr, hnil⟩
      obtain rfl := List.isEmpty_iff.1 hnil
      obtain ⟨w, hw, hmem⟩ := (mem_tokensAfter ts hpath []).1 hr
      rw [List.append_nil, List.mem_singleton] at hmem
      exact hmem ▸ hw
    · intro h
      exact ⟨[], (mem_tokensAfter ts hpath []).2 ⟨path, h, by simp⟩, rfl⟩
  unfold covers
  split
  · simp
  · next hts => rw [htokens, or_iff_right hts]

end ContentGraph.Glob
