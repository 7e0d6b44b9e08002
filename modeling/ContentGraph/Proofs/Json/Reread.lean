import ContentGraph.Proofs.Json.NumberEnds
import ContentGraph.Proofs.Json.StringText

/-!
# What is read of a text that was written

Every value can be written, but its text is not always read as the same value: of a double the
nearest one may be missed, and what is nested too deep is not read at all. What is read of the text
of a value is told value by value, without the text around it (`reread`). Main statement: `parse?`
makes of the text of any value what rereading tells (`parse?_render_eq`).
-/

namespace ContentGraph.Json

open Text

/-! ## Rereading -/

/-- What is read of the text of a number, if all of it is taken for one. -/
def rereadNumber (n : Number) : Option Number :=
  match numberText (numberChars n) with
  | some (t, []) => t.value?
  | _ => none

/-- The fields with what is read of each value, if something is read of every one. -/
def rereadFields (f : Json → Option Json) (fields : Fields) : Option Fields :=
  fields.mapM fun p => (f p.2).map (p.1, ·)

/-- What is read of the text of a value with `room` levels of nesting left. -/
def reread : Nat → Json → Option Json
  | _, .number n => (rereadNumber n).map .number
  | room + 1, .array items => (items.mapM (reread room)).map .array
  | room + 1, .object fields =>
    (rereadFields (reread room) fields).map fun fields => .object (Fields.ofList fields)
  | 0, .array _ => none
  | 0, .object _ => none
  | _, .null => some .null
  | _, .bool b => some (.bool b)
  | _, .string s => some (.string s)

/-- Holds when nothing was read, or when a part of a number is left. -/
def Stuck (o : Option (Json × List Char)) : Prop :=
  ∀ v s, o = some (v, s) → ∃ c t, s = c :: t ∧ isNumberChar c = true

/-- Holds when a value was read up to `rest`, or when reading got stuck. -/
inductive ReadsAs (rest : List Char) : Option Json → Option (Json × List Char) → Prop
  | read (v : Json) : ReadsAs rest (some v) (some (v, rest))
  | stuck {o : Option (Json × List Char)} (h : Stuck o) : ReadsAs rest none o

theorem stuck_none : Stuck none := fun _ _ h => nomatch h

theorem isSpace_numberChar {c : Char} (h : isNumberChar c = true) : isSpace c = false := by
  refine Bool.eq_false_iff.2 fun hspace => ?_
  simp only [isSpace, Bool.or_eq_true, beq_iff_eq] at hspace
  rcases hspace with ((rfl | rfl) | rfl) | rfl <;> exact absurd h (by decide)

/-- No part of a number is space or ends what stands around it. -/
theorem skipSpace_numberChar {c : Char} (h : isNumberChar c = true) (s : List Char) :
    skipSpace (c :: s) = c :: s ∧ c ≠ ',' ∧ c ≠ ']' ∧ c ≠ '}' := by
  refine ⟨by simp [skipSpace, isSpace_numberChar h], ?_, ?_, ?_⟩ <;> rintro rfl <;>
    exact absurd h (by decide)

/-! ## Shape of the text -/

/-- The text of any value starts with neither space nor a closing bracket. -/
theorem chars_first (v : Json) : ∃ c s, chars v = c :: s ∧ isSpace c = false ∧ c ≠ ']' := by
  cases v with
  | null => exact ⟨_, _, rfl, rfl, by decide⟩
  | bool b => cases b <;> exact ⟨_, _, rfl, rfl, by decide⟩
  | string s => exact ⟨_, _, rfl, rfl, by decide⟩
  | array items => cases items <;> exact ⟨_, _, rfl, rfl, by decide⟩
  | object fields => cases fields <;> exact ⟨_, _, rfl, rfl, by decide⟩
  | number n =>
      obtain ⟨hall, hne⟩ := all_numberChars n
      obtain ⟨c, s, hcs⟩ := List.exists_cons_of_ne_nil hne
      have hc : isNumberChar c = true := by
        rw [hcs] at hall
        exact List.all_eq_true.1 hall c List.mem_cons_self
      exact ⟨c, s, hcs, isSpace_numberChar hc, (skipSpace_numberChar hc s).2.2.1⟩

theorem skipSpace_first (v : Json) (s : List Char) : skipSpace (chars v ++ s) = chars v ++ s := by
  obtain ⟨c, t, hc, hspace, -⟩ := chars_first v
  simp [hc, skipSpace, hspace]

theorem Ends.skipSpace {s : List Char} (h : Ends s) : skipSpace s = s := by
  cases h <;> rfl

theorem ends_itemsChars (items : List Json) (s : List Char) : Ends (itemsChars items ++ s) := by
  cases items
  · exact .bracket _
  · exact .comma _

theorem ends_fieldsChars (fields : List (String × Json)) (s : List Char) :
    Ends (fieldsChars fields ++ s) := by
  cases fields
  · exact .brace _
  · exact .comma _

theorem length_lt_itemsChars (items : List Json) : items.length < (itemsChars items).length := by
  induction items with
  | nil => simp [itemsChars]
  | cons v rest ih =>
      simp only [itemsChars, List.length_cons, List.length_append]
      omega

theorem length_chars_le_itemsChars {items : List Json} {v : Json} (h : v ∈ items) :
    (chars v).length ≤ (itemsChars items).length := by
  induction items with
  | nil => simp at h
  | cons w rest ih =>
      simp only [itemsChars, List.length_cons, List.length_append]
      rcases List.mem_cons.1 h with rfl | h
      · omega
      · have := ih h
        omega

theorem length_lt_fieldsChars (fields : List (String × Json)) :
    fields.length < (fieldsChars fields).length := by
  induction fields with
  | nil => simp [fieldsChars]
  | cons p rest ih =>
      simp only [fieldsChars, List.length_cons, List.length_append]
      omega

theorem length_le_fieldsChars {fields : List (String × Json)} {p : String × Json}
    (h : p ∈ fields) :
    (quoted p.1).length ≤ (fieldsChars fields).length
      ∧ (chars p.2).length ≤ (fieldsChars fields).length := by
  induction fields with
  | nil => simp at h
  | cons q rest ih =>
      simp only [fieldsChars, List.length_cons, List.length_append]
      rcases List.mem_cons.1 h with rfl | h
      · omega
      · have := ih h
        omega

/-- An array of items is one bracket and what is written behind a first comma. -/
theorem chars_array_cons (v : Json) (rest : List Json) (s : List Char) :
    chars (.array (v :: rest)) ++ s = '[' :: (chars v ++ (itemsChars rest ++ s)) := by
  simp [chars]

theorem chars_object_cons (k : String) (v : Json) (rest : List (String × Json)) (s : List Char) :
    chars (.object ((k, v) :: rest)) ++ s
      = '{' :: (quoted k ++ ':' :: (chars v ++ (fieldsChars rest ++ s))) := by
  simp [chars]

/-! ## Numbers and strings -/

/-- What opens neither a list nor an object is a scalar. -/
theorem readValue_scalar {fuel room : Nat} {c : Char} {s : List Char} (hl : c ≠ '[')
    (ho : c ≠ '{') : readValue fuel room (c :: s) = readScalar fuel (c :: s) := by
  cases room with
  | zero => rfl
  | succ room =>
      unfold readValue
      split
      · next h => exact absurd (List.cons.inj h).1 hl
      · next h => exact absurd (List.cons.inj h).1 ho
      · rfl

/-- A list that does not end at once is read item by item. -/
theorem readValue_array {fuel room : Nat} {s : List Char} (hs : skipSpace s = s)
    (hne : ∀ t, s ≠ ']' :: t) :
    readValue fuel (room + 1) ('[' :: s)
      = (readItems (readValue fuel room) fuel [] s).map fun (vs, s) => (.array vs, s) := by
  simp only [readValue, hs]

/-- An object that does not end at once is read field by field. -/
theorem readValue_object {fuel room : Nat} {s : List Char} (hs : skipSpace s = s)
    (hne : ∀ t, s ≠ '}' :: t) :
    readValue fuel (room + 1) ('{' :: s)
      = (readFields (readValue fuel room) fuel fuel [] s).map fun (fs, s) => (.object fs, s) := by
  simp only [readValue, hs]

/-- The text of a number is read as a number. -/
theorem readValue_number (fuel room : Nat) (n : Number) (rest : List Char) :
    readValue fuel room (numberChars n ++ rest)
      = (readNumber (numberChars n ++ rest)).map fun (n, s) => (Json.number n, s) := by
  obtain ⟨hall, hne⟩ := all_numberChars n
  obtain ⟨c, s, hcs⟩ := List.exists_cons_of_ne_nil hne
  rw [hcs] at hall ⊢
  have hc : isNumberChar c = true := List.all_eq_true.1 hall c List.mem_cons_self
  have hother {d : Char} (hd : isNumberChar d = false) : c ≠ d := by
    rintro rfl
    rw [hd] at hc
    exact nomatch hc
  rw [List.cons_append, readValue_scalar (hother rfl) (hother rfl)]
  unfold readScalar
  split
  · next heq => exact absurd (List.cons.inj heq).1 (hother rfl)
  · next heq => exact absurd (List.cons.inj heq).1 (hother rfl)
  · next heq => exact absurd (List.cons.inj heq).1 (hother rfl)
  · next heq => exact absurd (List.cons.inj heq).1 (hother rfl)
  · rfl

theorem readsAs_number (fuel room : Nat) (n : Number) {rest : List Char} (hr : Ends rest) :
    ReadsAs rest ((rereadNumber n).map .number)
      (readValue fuel room (numberChars n ++ rest)) := by
  rw [readValue_number]
  unfold readNumber rereadNumber
  rw [numberText_append _ hr]
  rcases htext : numberText (numberChars n) with _ | ⟨t, _ | ⟨c, s⟩⟩
  · exact .stuck stuck_none
  · simp only [Option.map_some, Option.bind_eq_bind, Option.bind_some, behind, List.nil_append]
    cases t.value? with
    | none => exact .stuck stuck_none
    | some m => exact .read (.number m)
  · -- what is left belongs to the number
    have hc : isNumberChar c = true := List.all_eq_true.1 (all_numberChars n).1 c
      ((suffix_of_numberText htext).subset List.mem_cons_self)
    simp only [Option.map_some, Option.bind_eq_bind, Option.bind_some, behind]
    refine .stuck fun v s' h => ?_
    cases hvalue : t.value? with
    | none =>
        rw [hvalue] at h
        cases h
    | some m =>
        rw [hvalue] at h
        obtain ⟨-, rfl⟩ := Prod.mk.inj (Option.some.inj h)
        exact ⟨c, s ++ rest, rfl, hc⟩

/-- An integer of a machine word is read back. -/
theorem rereadNumber_eq {n : Number} {t : NumberText}
    (h : numberText (numberChars n) = some (t, [])) : rereadNumber n = t.value? := by
  unfold rereadNumber
  rw [h]

theorem rereadNumber_integer {n : Int} (h : InWord n) :
    rereadNumber (.integer n) = some (.integer n) := by
  have htext := numberText_integerText n Ends.nothing
  rw [List.append_nil] at htext
  rw [rereadNumber_eq (n := .integer n) htext]
  exact value?_integerText h

/-! ## Lists of values -/

theorem readItems_stuck {item : Reader Json} {s : List Char} (h : Stuck (item (skipSpace s)))
    (fuel : Nat) (done : List Json) : readItems item (fuel + 1) done s = none := by
  rw [readItems]
  rcases hitem : item (skipSpace s) with _ | ⟨v, s'⟩
  · rfl
  · obtain ⟨c, t, rfl, hc⟩ := h v s' hitem
    obtain ⟨hskip, hcomma, hbracket, -⟩ := skipSpace_numberChar hc t
    simp only [hskip]
    split
    · next heq => exact absurd (List.cons.inj heq).1 hcomma
    · next heq => exact absurd (List.cons.inj heq).1 hbracket
    · rfl

/-- Items are read up to the bracket, each as its own text is. -/
theorem readItems_reread {f : Json → Option Json} {item : Reader Json} {v : Json}
    {items : List Json}
    (hitem : ∀ w ∈ v :: items, ∀ s, Ends s → ReadsAs s (f w) (item (chars w ++ s)))
    {fuel : Nat} (hfuel : items.length < fuel) (done : List Json) (s : List Char) :
    readItems item fuel done (chars v ++ (itemsChars items ++ s))
      = ((v :: items).mapM f).map fun ws => (done.reverse ++ ws, s) := by
  induction items generalizing v fuel done with
  | nil =>
      obtain ⟨n, rfl⟩ : ∃ n, fuel = n + 1 := ⟨fuel - 1, by simp at hfuel; omega⟩
      have hv := hitem v List.mem_cons_self _ (ends_itemsChars [] s)
      rw [List.mapM_cons]
      cases hf : f v with
      | none =>
          rw [hf] at hv
          cases hv with
          | stuck h => exact readItems_stuck ((skipSpace_first v _).symm ▸ h) n done
      | some w =>
          rw [hf] at hv
          generalize hread : item (chars v ++ (itemsChars [] ++ s)) = o at hv
          cases hv with
          | read =>
              rw [readItems, skipSpace_first, hread]
              simp [itemsChars, skipSpace, isSpace]
  | cons w items ih =>
      obtain ⟨n, rfl⟩ : ∃ n, fuel = n + 1 := ⟨fuel - 1, by simp at hfuel; omega⟩
      have hv := hitem v List.mem_cons_self _ (ends_itemsChars (w :: items) s)
      rw [List.mapM_cons]
      cases hf : f v with
      | none =>
          rw [hf] at hv
          cases hv with
          | stuck h => exact readItems_stuck ((skipSpace_first v _).symm ▸ h) n done
      | some u =>
          rw [hf] at hv
          generalize hread : item (chars v ++ (itemsChars (w :: items) ++ s)) = o at hv
          cases hv with
          | read =>
              have hrest := ih (fun x hx => hitem x (List.mem_cons_of_mem _ hx))
                (by simpa using hfuel) (u :: done)
              rw [readItems, skipSpace_first, hread]
              simp only [(ends_itemsChars (w :: items) s).skipSpace]
              simp only [itemsChars, List.cons_append, List.append_assoc, hrest]
              cases (w :: items).mapM f <;> simp

/-- A key and its colon are read back. -/
theorem readKey_quoted (k : String) {size : Nat} (h : (quoted k).length ≤ size)
    (s : List Char) : readKey size (quoted k ++ ':' :: s) = some (k, s) := by
  obtain ⟨body, hq, hbody⟩ := stringBody_quoted k h (':' :: s)
  have hsp : skipSpace ('"' :: body) = '"' :: body := rfl
  unfold readKey
  rw [hq, hsp]
  simp only [hbody]
  rfl

theorem readFields_stuck {item : Reader Json} {k : String} {size : Nat}
    (hsize : (quoted k).length ≤ size) {s : List Char} (h : Stuck (item (skipSpace s)))
    (fuel : Nat) (done : Fields) :
    readFields item size (fuel + 1) done (quoted k ++ ':' :: s) = none := by
  rw [readFields, readKey_quoted k hsize]
  rcases hitem : item (skipSpace s) with _ | ⟨v, s'⟩
  · simp only [hitem]
  · obtain ⟨c, t, rfl, hc⟩ := h v s' hitem
    obtain ⟨hskip, hcomma, -, hbrace⟩ := skipSpace_numberChar hc t
    simp only [hitem, hskip]
    split
    · next heq => exact absurd (List.cons.inj heq).1 hcomma
    · next heq => exact absurd (List.cons.inj heq).1 hbrace
    · rfl

/-- Fields are read up to the brace, each value as its own text is. -/
theorem readFields_reread {f : Json → Option Json} {item : Reader Json} {p : String × Json}
    {fields : Fields}
    (hitem : ∀ q ∈ p :: fields, ∀ s, Ends s → ReadsAs s (f q.2) (item (chars q.2 ++ s)))
    {size : Nat} (hsize : ∀ q ∈ p :: fields, (quoted q.1).length ≤ size)
    {fuel : Nat} (hfuel : fields.length < fuel) (done : Fields) (s : List Char) :
    readFields item size fuel done
        (quoted p.1 ++ ':' :: (chars p.2 ++ (fieldsChars fields ++ s)))
      = (rereadFields f (p :: fields)).map fun fs =>
        (fs.foldl (fun fs q => Fields.insert q.1 q.2 fs) done, s) := by
  induction fields generalizing p fuel done with
  | nil =>
      obtain ⟨n, rfl⟩ : ∃ n, fuel = n + 1 := ⟨fuel - 1, by simp at hfuel; omega⟩
      have hv := hitem p List.mem_cons_self _ (ends_fieldsChars [] s)
      have hp := hsize p List.mem_cons_self
      rw [rereadFields, List.mapM_cons]
      cases hf : f p.2 with
      | none =>
          rw [hf] at hv
          cases hv with
          | stuck h => exact readFields_stuck hp ((skipSpace_first p.2 _).symm ▸ h) n done
      | some w =>
          rw [hf] at hv
          generalize hread : item (chars p.2 ++ (fieldsChars [] ++ s)) = o at hv
          cases hv with
          | read =>
              rw [readFields, readKey_quoted p.1 hp]
              simp only [skipSpace_first, hread]
              simp [fieldsChars, skipSpace, isSpace]
  | cons q fields ih =>
      obtain ⟨n, rfl⟩ : ∃ n, fuel = n + 1 := ⟨fuel - 1, by simp at hfuel; omega⟩
      have hv := hitem p List.mem_cons_self _ (ends_fieldsChars (q :: fields) s)
      have hp := hsize p List.mem_cons_self
      rw [rereadFields, List.mapM_cons]
      cases hf : f p.2 with
      | none =>
          rw [hf] at hv
          cases hv with
          | stuck h => exact readFields_stuck hp ((skipSpace_first p.2 _).symm ▸ h) n done
      | some w =>
          rw [hf] at hv
          generalize hread : item (chars p.2 ++ (fieldsChars (q :: fields) ++ s)) = o at hv
          cases hv with
          | read =>
              have hrest := ih (fun x hx => hitem x (List.mem_cons_of_mem _ hx))
                (fun x hx => hsize x (List.mem_cons_of_mem _ hx)) (by simpa using hfuel)
                (done.insert p.1 w)
              rw [readFields, readKey_quoted p.1 hp]
              simp only [skipSpace_first, hread, (ends_fieldsChars (q :: fields) s).skipSpace]
              simp only [fieldsChars, List.cons_append, List.append_assoc, hrest]
              unfold rereadFields
              cases (q :: fields).mapM (fun p => (f p.2).map (p.1, ·)) <;> simp

/-! ## Values -/

/-- Holds when the text of a value is read as rereading tells, with enough fuel. -/
def Rereads (room : Nat) (v : Json) : Prop :=
  ∀ {fuel : Nat} {rest : List Char}, (chars v).length ≤ fuel → Ends rest →
    ReadsAs rest (reread room v) (readValue fuel room (chars v ++ rest))

/-- A list is reread item by item. -/
theorem rereads_array {room : Nat} (ih : ∀ v, Rereads room v) (items : List Json) :
    Rereads (room + 1) (.array items) := by
  intro fuel rest hf hr
  cases items with
  | nil => exact .read (.array [])
  | cons v items =>
      have hlen : (chars (.array (v :: items))).length
          = (chars v).length + (itemsChars items).length + 1 := by simp [chars]
      have hcount := length_lt_itemsChars items
      have hread : readItems (readValue fuel room) fuel [] (chars v ++ (itemsChars items ++ rest))
          = ((v :: items).mapM (reread room)).map fun ws => ([] ++ ws, rest) := by
        refine readItems_reread (fun w hw s hs => ih w ?_ hs) (by omega) [] rest
        rcases List.mem_cons.1 hw with rfl | hw
        · omega
        · have := length_chars_le_itemsChars hw
          omega
      rw [chars_array_cons, readValue_array (skipSpace_first v _), hread]
      · show ReadsAs rest (((v :: items).mapM (reread room)).map .array) _
        cases (v :: items).mapM (reread room) with
        | none => exact .stuck stuck_none
        | some ws => exact .read (.array ws)
      · -- an item does not begin with the bracket that closes
        intro t he
        obtain ⟨c, s, hcs, -, hc⟩ := chars_first v
        rw [hcs] at he
        exact hc (List.cons.inj he).1

/-- An object is reread field by field. -/
theorem rereads_object {room : Nat} (ih : ∀ v, Rereads room v) (fields : Fields) :
    Rereads (room + 1) (.object fields) := by
  intro fuel rest hf hr
  cases fields with
  | nil => exact .read (.object [])
  | cons p fields =>
      obtain ⟨k, v⟩ := p
      have hlen : (chars (.object ((k, v) :: fields))).length
          = (quoted k).length + (chars v).length + (fieldsChars fields).length + 2 := by
        simp [chars]
        omega
      have hcount := length_lt_fieldsChars fields
      have hfield : ∀ q ∈ (k, v) :: fields,
          (quoted q.1).length ≤ fuel ∧ (chars q.2).length ≤ fuel := by
        intro q hq
        rcases List.mem_cons.1 hq with rfl | hq
        · simp only
          omega
        · have := length_le_fieldsChars hq
          omega
      have hread : readFields (readValue fuel room) fuel fuel []
            (quoted k ++ ':' :: (chars v ++ (fieldsChars fields ++ rest)))
          = (rereadFields (reread room) ((k, v) :: fields)).map fun fs =>
            (Fields.ofList fs, rest) :=
        readFields_reread (fun q hq s hs => ih q.2 (hfield q hq).2 hs)
          (fun q hq => (hfield q hq).1) (by omega) [] rest
      rw [chars_object_cons, readValue_object rfl (by simp [quoted]), hread]
      show ReadsAs rest ((rereadFields (reread room) ((k, v) :: fields)).map _) _
      cases rereadFields (reread room) ((k, v) :: fields) with
      | none => exact .stuck stuck_none
      | some fs => exact .read (.object (Fields.ofList fs))

theorem rereads_scalar {room : Nat} {v : Json} (hitems : ∀ items, v ≠ .array items)
    (hfields : ∀ fields, v ≠ .object fields) : Rereads room v := by
  intro fuel rest hf hr
  cases v with
  | null =>
      have hread : readValue fuel room (chars .null ++ rest) = some (.null, rest) :=
        readValue_scalar (by decide) (by decide)
      rw [hread]
      cases room <;> exact .read .null
  | bool b =>
      have hread : readValue fuel room (chars (.bool b) ++ rest) = some (.bool b, rest) := by
        cases b <;> exact readValue_scalar (by decide) (by decide)
      rw [hread]
      cases room <;> exact .read (.bool b)
  | number n =>
      have hread := readsAs_number fuel room n hr
      cases room <;> exact hread
  | string t =>
      obtain ⟨body, hq, hbody⟩ := stringBody_quoted t hf rest
      have hread : readValue fuel room (chars (.string t) ++ rest) = some (.string t, rest) := by
        show readValue fuel room (quoted t ++ rest) = _
        rw [hq, readValue_scalar (by decide) (by decide)]
        simp only [readScalar, hbody, Option.map_some]
      rw [hread]
      cases room <;> exact .read (.string t)
  | array items => exact absurd rfl (hitems items)
  | object fields => exact absurd rfl (hfields fields)

/-- What is nested deeper than there is room for is not read. -/
theorem readValue_zero_of_bracket {fuel : Nat} {c : Char} (hc : c = '[' ∨ c = '{')
    (s : List Char) : readValue fuel 0 (c :: s) = none := by
  rcases hc with rfl | rfl <;> rfl

/-- **Values.** Every value is reread as its text is read, whatever ends behind it. -/
theorem rereads (room : Nat) (v : Json) : Rereads room v := by
  induction room generalizing v with
  | zero =>
      cases v with
      | array items =>
          intro fuel rest _ _
          have hnone : readValue fuel 0 (chars (.array items) ++ rest) = none := by
            cases items <;> exact readValue_zero_of_bracket (.inl rfl) _
          rw [hnone]
          exact .stuck stuck_none
      | object fields =>
          intro fuel rest _ _
          have hnone : readValue fuel 0 (chars (.object fields) ++ rest) = none := by
            cases fields <;> exact readValue_zero_of_bracket (.inr rfl) _
          rw [hnone]
          exact .stuck stuck_none
      | _ => exact rereads_scalar (by simp) (by simp)
  | succ room ih =>
      cases v with
      | array items => exact rereads_array ih items
      | object fields => exact rereads_object ih fields
      | _ => exact rereads_scalar (by simp) (by simp)

/-- **Texts.** What is read of the text of a value is what rereading the value tells. -/
theorem parse?_render_eq (v : Json) : parse? (render v) = reread maxNesting v := by
  have hread : ReadsAs [] (reread maxNesting v)
      (readValue ((chars v).length + 1) maxNesting (chars v ++ [])) :=
    rereads maxNesting v (Nat.le_succ _) Ends.nothing
  have hskip := skipSpace_first v []
  rw [List.append_nil] at hread hskip
  unfold parse? parseChars? render
  rw [String.toList_ofList, hskip]
  generalize readValue ((chars v).length + 1) maxNesting (chars v) = o at hread
  generalize reread maxNesting v = w? at hread
  cases hread with
  | read w => rfl
  | stuck h =>
      rcases o with _ | ⟨w, s⟩
      · rfl
      · -- a part of a number is left behind the value
        obtain ⟨c, t, rfl, hc⟩ := h w s rfl
        simp [(skipSpace_numberChar hc t).1]

/-- The text of an object is read as its fields reread one by one. -/
theorem parse?_render_object (fields : Fields) :
    parse? (render (.object fields))
      = (rereadFields (reread 126) fields).map fun fields => .object (Fields.ofList fields) := by
  rw [parse?_render_eq]
  rfl

end ContentGraph.Json
