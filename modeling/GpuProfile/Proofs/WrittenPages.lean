import GpuProfile.Proofs.WrittenDoubles
import GpuProfile.Proofs.WrittenText
import GpuProfile.Json.Value

namespace GpuProfile.Json

theorem skipSpace_append {blanks : List Char} (h : ∀ c ∈ blanks, isSpace c) (cs : List Char) :
    skipSpace (blanks ++ cs) = skipSpace cs := List.dropWhile_append_of_pos h

theorem skipSpace_cons {c : Char} (h : isSpace c = false) (cs : List Char) : skipSpace (c :: cs) = c :: cs := by
  rw [skipSpace, List.dropWhile_cons_of_neg (by simp [h])]

namespace Document

variable {blanks : List Char} (h : ∀ c ∈ blanks, isSpace c) (n : ℕ) (cs : List Char)

include h

theorem scan_skip : scan n (blanks ++ cs) = scan n cs := by
  cases n with
  | zero => rfl
  | succ n => rw [scan, scan, skipSpace_append h]

theorem scanItems_skip : scanItems n (blanks ++ cs) = scanItems n cs := by
  cases n with
  | zero => rfl
  | succ n => rw [scanItems, scanItems, scan_skip h]

theorem scanMembers_skip : scanMembers n (blanks ++ cs) = scanMembers n cs := by
  cases n with
  | zero => rfl
  | succ n => rw [scanMembers, scanMembers, skipSpace_append h]

end Document

namespace Value

structure Layout.Blank (layout : Layout) : Prop where
  lineBreak : ∀ depth, ∀ c ∈ layout.lineBreak depth, isSpace c
  colon : ∃ blanks, layout.colon = ':' :: blanks ∧ ∀ c ∈ blanks, isSpace c

theorem Layout.blank_compact : Layout.compact.Blank := ⟨by simp [compact], [], rfl, by simp⟩

theorem Layout.blank_indented : Layout.indented.Blank := by
  refine ⟨fun depth c hc => ?_, [' '], rfl, by simp [isSpace]⟩
  rcases List.mem_cons.mp hc with rfl | hc
  · rfl
  · rw [List.eq_of_mem_replicate hc]
    rfl

def numberDocument : Number → Document
  | .integer n => .number (.ofInt n)
  | .real x => if x.isFinite then .number (Decimal.numeral x) else .null

mutual

def document : Value → Document
  | .null => .null
  | .bool b => .bool b
  | .number n => numberDocument n
  | .string s => .string (s.toList.flatMap escape)
  | .array items => .array (documents items) true
  | .object members => .object (labelled members) true

def documents : List Value → List Document
  | [] => []
  | item :: rest => item.document :: documents rest

def labelled : List (String × Value) → List (Label × Document)
  | [] => []
  | (key, value) :: rest => (.written (key.toList.flatMap escape), value.document) :: labelled rest

end

mutual

def steps : Value → ℕ
  | .array items => itemSteps items + 1
  | .object members => memberSteps members + 1
  | _ => 1

def itemSteps : List Value → ℕ
  | [] => 0
  | item :: rest => item.steps + itemSteps rest + 1

def memberSteps : List (String × Value) → ℕ
  | [] => 0
  | (_, value) :: rest => value.steps + memberSteps rest + 1

end

theorem documents_eq_map (items : List Value) : documents items = items.map document := by
  induction items with
  | nil => rfl
  | cons item rest ih => rw [documents, ih, List.map_cons]

theorem labelled_eq_map (members : List (String × Value)) :
    labelled members = members.map fun p => (.written (p.1.toList.flatMap escape), p.2.document) := by
  induction members with
  | nil => rfl
  | cons p rest ih => rw [labelled, ih, List.map_cons]

end Value

def startsNumeral (c : Char) : Bool := c == '-' || c.isDigit

theorem Numeral.spell_start {n : Numeral} (h : n.Sound) : ∃ c cs, n.spell = c :: cs ∧ startsNumeral c := by
  obtain ⟨d, ds, hd⟩ := List.exists_cons_of_ne_nil h.some_digit
  have hdigit := h.whole d (hd ▸ List.mem_cons_self)
  rw [spell, hd]
  cases n.negative with
  | true => exact ⟨'-', _, rfl, rfl⟩
  | false => exact ⟨d, _, rfl, by simp [startsNumeral, hdigit]⟩

theorem startsNumeral_ne {c : Char} (h : startsNumeral c) : isSpace c = false ∧
    c ≠ 'n' ∧ c ≠ 't' ∧ c ≠ 'f' ∧ c ≠ '"' ∧ c ≠ '[' ∧ c ≠ '{' ∧ c ≠ ']' := by
  refine ⟨?_, ?_, ?_, ?_, ?_, ?_, ?_, ?_⟩
  · by_contra hc
    rw [Bool.not_eq_false] at hc
    simp only [isSpace, Bool.or_eq_true, decide_eq_true_eq] at hc
    obtain ((rfl | rfl) | rfl) | rfl := hc <;> exact absurd h (by decide)
  all_goals
    rintro rfl
    exact absurd h (by decide)

namespace Document

theorem scan_of_startsNumeral {c : Char} (h : startsNumeral c) (n : ℕ) {cs rest : List Char} {numeral : Numeral}
    (hscan : Numeral.scan (c :: cs) = some (numeral, rest)) : scan (n + 1) (c :: cs) = (.number numeral, rest) := by
  obtain ⟨hspace, hn, ht, hf, hquote, harray, hobject, -⟩ := startsNumeral_ne h
  rw [scan, skipSpace_cons hspace]
  split <;> simp_all

theorem scan_numeral {numeral : Numeral} (h : numeral.Sound) (n : ℕ) {rest : List Char} (hrest : Stops carriesOn rest) :
    scan (n + 1) (numeral.spell ++ rest) = (.number numeral, rest) := by
  obtain ⟨c, cs, hspell, hc⟩ := Numeral.spell_start h
  have hscan := Numeral.scan_spell h hrest
  rw [hspell, List.cons_append] at hscan ⊢
  exact scan_of_startsNumeral hc n hscan

theorem scan_string (s : String) (n : ℕ) (rest : List Char) :
    scan (n + 1) (quote s ++ rest) = (.string (s.toList.flatMap escape), rest) := by
  have hscan := scanText_flatMap_escape s.toList rest
  rw [quote, List.cons_append, List.cons_append, List.append_assoc, scan, skipSpace_cons (by decide)]
  simp only [List.singleton_append, hscan]

theorem scan_array {n : ℕ} {blanks cs rest : List Char} {c : Char} {items : List Document} {closed : Bool}
    (hblanks : ∀ c ∈ blanks, isSpace c) (hspace : isSpace c = false) (hc : c ≠ ']')
    (h : scanItems n (c :: cs) = (items, closed, rest)) :
    scan (n + 1) ('[' :: (blanks ++ c :: cs)) = (.array items closed, rest) := by
  have hskip : skipSpace (blanks ++ c :: cs) = c :: cs := by
    rw [skipSpace_append hblanks, skipSpace_cons hspace]
  rw [scan, skipSpace_cons (by decide)]
  simp only [hskip]
  split
  · next he => exact absurd (List.cons.inj he).1 hc
  · rw [h]

theorem scan_object {n : ℕ} {blanks cs rest : List Char} {c : Char} {members : List (Label × Document)} {closed : Bool}
    (hblanks : ∀ c ∈ blanks, isSpace c) (hspace : isSpace c = false) (hc : c ≠ '}')
    (h : scanMembers n (c :: cs) = (members, closed, rest)) :
    scan (n + 1) ('{' :: (blanks ++ c :: cs)) = (.object members closed, rest) := by
  have hskip : skipSpace (blanks ++ c :: cs) = c :: cs := by
    rw [skipSpace_append hblanks, skipSpace_cons hspace]
  rw [scan, skipSpace_cons (by decide)]
  simp only [hskip]
  split
  · next he => exact absurd (List.cons.inj he).1 hc
  · rw [h]

theorem scanItems_last {n : ℕ} {cs rest blanks : List Char} {item : Document} (hblanks : ∀ c ∈ blanks, isSpace c)
    (h : scan n cs = (item, blanks ++ ']' :: rest)) : scanItems (n + 1) cs = ([item], true, rest) := by
  have hskip : skipSpace (blanks ++ ']' :: rest) = ']' :: rest := by
    rw [skipSpace_append hblanks, skipSpace_cons (by decide)]
  rw [scanItems, h]
  simp only [hskip]

theorem scanItems_more {n : ℕ} {cs rest left : List Char} {item : Document} {items : List Document} {closed : Bool}
    (h : scan n cs = (item, ',' :: rest)) (hrest : scanItems n rest = (items, closed, left)) :
    scanItems (n + 1) cs = (item :: items, closed, left) := by
  have hskip : skipSpace (',' :: rest) = ',' :: rest := skipSpace_cons (by decide) rest
  rw [scanItems, h]
  simp only [hskip, hrest]

theorem scanMembers_last {n : ℕ} (key : String) {after cs blanks rest : List Char} {value : Document}
    (hafter : ∀ c ∈ after, isSpace c) (hblanks : ∀ c ∈ blanks, isSpace c)
    (h : scan n cs = (value, blanks ++ '}' :: rest)) :
    scanMembers (n + 1) (quote key ++ ':' :: (after ++ cs)) =
      ([(.written (key.toList.flatMap escape), value)], true, rest) := by
  have hscan := scanText_flatMap_escape key.toList (':' :: (after ++ cs))
  have hskip : skipSpace (blanks ++ '}' :: rest) = '}' :: rest := by
    rw [skipSpace_append hblanks, skipSpace_cons (by decide)]
  rw [quote, List.cons_append, List.cons_append, List.append_assoc, scanMembers, skipSpace_cons (by decide)]
  simp only [List.singleton_append, hscan, skipSpace_cons (show isSpace ':' = false by decide), scan_skip hafter, h,
    hskip]

theorem scanMembers_more {n : ℕ} (key : String) {after cs rest left : List Char} {value : Document}
    {members : List (Label × Document)} {closed : Bool} (hafter : ∀ c ∈ after, isSpace c)
    (h : scan n cs = (value, ',' :: rest)) (hrest : scanMembers n rest = (members, closed, left)) :
    scanMembers (n + 1) (quote key ++ ':' :: (after ++ cs)) =
      ((.written (key.toList.flatMap escape), value) :: members, closed, left) := by
  have hscan := scanText_flatMap_escape key.toList (':' :: (after ++ cs))
  rw [quote, List.cons_append, List.cons_append, List.append_assoc, scanMembers, skipSpace_cons (by decide)]
  simp only [List.singleton_append, hscan, skipSpace_cons (show isSpace ':' = false by decide), scan_skip hafter, h,
    skipSpace_cons (show isSpace ',' = false by decide), hrest]

end Document

theorem stops_blanks {blanks : List Char} (h : ∀ c ∈ blanks, isSpace c) {c : Char} (hc : carriesOn c = false)
    (cs : List Char) : Stops carriesOn (blanks ++ c :: cs) := by
  cases blanks with
  | nil => exact stops_cons hc cs
  | cons b blanks =>
    refine stops_cons ?_ _
    have hb := h b List.mem_cons_self
    simp only [isSpace, Bool.or_eq_true, decide_eq_true_eq] at hb
    obtain ((rfl | rfl) | rfl) | rfl := hb <;> decide

namespace Value

variable {layout : Layout}

def itemsText (layout : Layout) (depth : ℕ) : List Value → List Char
  | [] => []
  | item :: rest => item.write layout depth ++ writeItems layout depth rest

def membersText (layout : Layout) (depth : ℕ) : List (String × Value) → List Char
  | [] => []
  | (key, value) :: rest =>
    quote key ++ layout.colon ++ value.write layout depth ++ writeMembers layout depth rest

theorem numberDocument_written (x : Number) :
    (∃ numeral : Numeral, numeral.Sound ∧ numberText x = numeral.spell ∧ numberDocument x = .number numeral) ∨
      (numberText x = ['n', 'u', 'l', 'l'] ∧ numberDocument x = .null) := by
  cases x with
  | integer n => exact .inl ⟨.ofInt n, Numeral.sound_ofInt n, Numeral.toList_toString n, rfl⟩
  | real x =>
    unfold numberText numberDocument
    dsimp only
    split
    · exact .inl ⟨Decimal.numeral x, Decimal.sound_numeral x, Decimal.toList_shortText x, rfl⟩
    · exact .inr ⟨rfl, rfl⟩

theorem writeItems_cons (layout : Layout) (depth : ℕ) (item : Value) (rest : List Value) :
    writeItems layout depth (item :: rest) =
      ',' :: (layout.lineBreak depth ++ itemsText layout depth (item :: rest)) := by
  rw [writeItems, itemsText, List.append_assoc]
  rfl

theorem writeMembers_cons (layout : Layout) (depth : ℕ) (p : String × Value) (rest : List (String × Value)) :
    writeMembers layout depth (p :: rest) =
      ',' :: (layout.lineBreak depth ++ membersText layout depth (p :: rest)) := by
  obtain ⟨key, value⟩ := p
  simp only [writeMembers, membersText, List.append_assoc, List.cons_append]

theorem write_array (layout : Layout) (depth : ℕ) (item : Value) (rest : List Value) :
    (array (item :: rest)).write layout depth = '[' :: (layout.lineBreak (depth + 1) ++
      (itemsText layout (depth + 1) (item :: rest) ++ (layout.lineBreak depth ++ [']']))) := by
  simp only [write, itemsText, List.append_assoc, List.cons_append]

theorem write_object (layout : Layout) (depth : ℕ) (p : String × Value) (rest : List (String × Value)) :
    (object (p :: rest)).write layout depth = '{' :: (layout.lineBreak (depth + 1) ++
      (membersText layout (depth + 1) (p :: rest) ++ (layout.lineBreak depth ++ ['}']))) := by
  obtain ⟨key, value⟩ := p
  simp only [write, membersText, List.append_assoc, List.cons_append]

theorem write_start (layout : Layout) (depth : ℕ) (v : Value) :
    ∃ c cs, v.write layout depth = c :: cs ∧ isSpace c = false ∧ c ≠ ']' := by
  cases v with
  | null => exact ⟨'n', _, by rw [write], by decide, by decide⟩
  | bool b => cases b <;> exact ⟨_, _, by rw [write], by decide, by decide⟩
  | number x =>
    rw [write]
    obtain ⟨numeral, hsound, htext, -⟩ | ⟨htext, -⟩ := numberDocument_written x
    · obtain ⟨c, cs, hspell, hc⟩ := Numeral.spell_start hsound
      obtain ⟨hspace, -, -, -, -, -, -, hne⟩ := startsNumeral_ne hc
      exact ⟨c, cs, htext.trans hspell, hspace, hne⟩
    · exact ⟨'n', _, htext, by decide, by decide⟩
  | string s => exact ⟨'"', _, by rw [write, quote, List.cons_append], by decide, by decide⟩
  | array items =>
    cases items with
    | nil => exact ⟨'[', _, by rw [write], by decide, by decide⟩
    | cons item rest => exact ⟨'[', _, write_array layout depth item rest, by decide, by decide⟩
  | object members =>
    cases members with
    | nil => exact ⟨'{', _, by rw [write], by decide, by decide⟩
    | cons p rest => exact ⟨'{', _, write_object layout depth p rest, by decide, by decide⟩

theorem steps_pos (v : Value) : 0 < v.steps := by
  cases v <;> simp [steps]

mutual

theorem scan_write (hl : layout.Blank) : ∀ (v : Value) (depth n : ℕ) (rest : List Char), v.steps ≤ n →
    Stops carriesOn rest → Document.scan n (v.write layout depth ++ rest) = (v.document, rest)
  | v, depth, 0, rest, hn, _ => absurd v.steps_pos (by omega)
  | .null, depth, n + 1, rest, _, _ => by
    rw [write, List.cons_append, Document.scan, skipSpace_cons (by decide)]
    rfl
  | .bool b, depth, n + 1, rest, _, _ => by
    cases b <;>
    · rw [write, List.cons_append, Document.scan, skipSpace_cons (by decide)]
      rfl
  | .number x, depth, n + 1, rest, _, hrest => by
    rw [write, document]
    obtain ⟨numeral, hsound, htext, hdocument⟩ | ⟨htext, hdocument⟩ := numberDocument_written x
    · rw [htext, hdocument, Document.scan_numeral hsound n hrest]
    · rw [htext, hdocument, List.cons_append, Document.scan, skipSpace_cons (by decide)]
      rfl
  | .string s, depth, n + 1, rest, _, _ => Document.scan_string s n rest
  | .array [], depth, n + 1, rest, _, _ => by
    rw [write, List.cons_append, Document.scan, skipSpace_cons (by decide)]
    simp only [List.cons_append, skipSpace_cons (show isSpace ']' = false by decide)]
    rfl
  | .array (item :: items), depth, n + 1, rest, hn, _ => by
    have hitems := scanItems_write hl (item :: items) (depth + 1) n (layout.lineBreak depth) rest (by simp)
      (by rw [steps] at hn; omega) (hl.lineBreak depth)
    obtain ⟨c, cs, hstart, hspace, hc⟩ := write_start layout (depth + 1) item
    rw [write_array]
    rw [itemsText, hstart] at hitems ⊢
    simp only [List.append_assoc, List.cons_append, List.nil_append] at hitems ⊢
    exact Document.scan_array (hl.lineBreak (depth + 1)) hspace hc hitems
  | .object [], depth, n + 1, rest, _, _ => by
    rw [write, List.cons_append, Document.scan, skipSpace_cons (by decide)]
    simp only [List.cons_append, skipSpace_cons (show isSpace '}' = false by decide)]
    rfl
  | .object (p :: members), depth, n + 1, rest, hn, _ => by
    have hmembers := scanMembers_write hl (p :: members) (depth + 1) n (layout.lineBreak depth) rest (by simp)
      (by rw [steps] at hn; omega) (hl.lineBreak depth)
    rw [write_object]
    rw [membersText, quote] at hmembers ⊢
    simp only [List.append_assoc, List.cons_append, List.nil_append] at hmembers ⊢
    exact Document.scan_object (hl.lineBreak (depth + 1)) (by decide) (by decide) hmembers

theorem scanItems_write (hl : layout.Blank) : ∀ (items : List Value) (depth n : ℕ) (blanks rest : List Char),
    items ≠ [] → itemSteps items ≤ n → (∀ c ∈ blanks, isSpace c) →
    Document.scanItems n (itemsText layout depth items ++ (blanks ++ ']' :: rest)) = (documents items, true, rest)
  | [], _, _, _, _, hne, _, _ => absurd rfl hne
  | item :: rest, depth, 0, blanks, left, _, hn, hblanks => by
    rw [itemSteps] at hn
    omega
  | [item], depth, n + 1, blanks, left, _, hn, hblanks => by
    rw [itemSteps] at hn
    have hitem := scan_write hl item depth n (blanks ++ ']' :: left) (by omega) (stops_blanks hblanks (by decide) left)
    rw [itemsText, writeItems, List.append_nil]
    exact Document.scanItems_last hblanks hitem
  | item :: next :: rest, depth, n + 1, blanks, left, _, hn, hblanks => by
    rw [itemSteps] at hn
    have hnext := scanItems_write hl (next :: rest) depth n blanks left (by simp) (by omega) hblanks
    rw [itemsText, writeItems_cons, List.append_assoc, List.cons_append, List.append_assoc]
    have hitem := scan_write hl item depth n (',' :: (layout.lineBreak depth ++
      (itemsText layout depth (next :: rest) ++ (blanks ++ ']' :: left)))) (by omega) (stops_cons (by decide) _)
    rw [← Document.scanItems_skip (hl.lineBreak depth)] at hnext
    exact Document.scanItems_more hitem hnext

theorem scanMembers_write (hl : layout.Blank) : ∀ (members : List (String × Value)) (depth n : ℕ)
    (blanks rest : List Char), members ≠ [] → memberSteps members ≤ n → (∀ c ∈ blanks, isSpace c) →
    Document.scanMembers n (membersText layout depth members ++ (blanks ++ '}' :: rest)) =
      (labelled members, true, rest)
  | [], _, _, _, _, hne, _, _ => absurd rfl hne
  | (key, value) :: rest, depth, 0, blanks, left, _, hn, hblanks => by
    rw [memberSteps] at hn
    omega
  | [(key, value)], depth, n + 1, blanks, left, _, hn, hblanks => by
    rw [memberSteps] at hn
    obtain ⟨after, hcolon, hafter⟩ := hl.colon
    have hvalue := scan_write hl value depth n (blanks ++ '}' :: left) (by omega)
      (stops_blanks hblanks (by decide) left)
    rw [membersText, writeMembers, List.append_nil, hcolon]
    simp only [List.append_assoc, List.cons_append]
    exact Document.scanMembers_last key hafter hblanks hvalue
  | (key, value) :: next :: rest, depth, n + 1, blanks, left, _, hn, hblanks => by
    rw [memberSteps] at hn
    obtain ⟨after, hcolon, hafter⟩ := hl.colon
    have hnext := scanMembers_write hl (next :: rest) depth n blanks left (by simp) (by omega) hblanks
    have hvalue := scan_write hl value depth n (',' :: (layout.lineBreak depth ++
      (membersText layout depth (next :: rest) ++ (blanks ++ '}' :: left)))) (by omega) (stops_cons (by decide) _)
    rw [← Document.scanMembers_skip (hl.lineBreak depth)] at hnext
    rw [membersText, writeMembers_cons, hcolon]
    simp only [List.append_assoc, List.cons_append]
    exact Document.scanMembers_more key hafter hvalue hnext

end

mutual

-- Each step of the scan is paid for by characters: one of its own, or the brackets around the parts.
theorem steps_le (layout : Layout) : ∀ (v : Value) (depth : ℕ), v.steps ≤ 2 * (v.write layout depth).length
  | .null, depth => by simp [steps, write]
  | .bool b, depth => by cases b <;> simp [steps, write]
  | .number x, depth => by
    obtain ⟨c, cs, hstart, -⟩ := write_start layout depth (number x)
    simp only [steps, hstart, List.length_cons]
    omega
  | .string s, depth => by
    simp [steps, write, quote]
    omega
  | .array [], depth => by simp [steps, itemSteps, write]
  | .array (item :: rest), depth => by
    have hitem := steps_le layout item (depth + 1)
    have hrest := itemSteps_le layout rest (depth + 1)
    simp only [write_array, steps, itemSteps, itemsText, List.length_cons, List.length_append]
    omega
  | .object [], depth => by simp [steps, memberSteps, write]
  | .object ((key, value) :: rest), depth => by
    have hvalue := steps_le layout value (depth + 1)
    have hrest := memberSteps_le layout rest (depth + 1)
    simp only [write_object, steps, memberSteps, membersText, List.length_cons, List.length_append]
    omega

theorem itemSteps_le (layout : Layout) : ∀ (items : List Value) (depth : ℕ),
    itemSteps items ≤ 2 * (writeItems layout depth items).length
  | [], _ => by simp [itemSteps]
  | item :: rest, depth => by
    have hitem := steps_le layout item depth
    have hrest := itemSteps_le layout rest depth
    simp only [writeItems_cons, itemSteps, itemsText, List.length_cons, List.length_append]
    omega

theorem memberSteps_le (layout : Layout) : ∀ (members : List (String × Value)) (depth : ℕ),
    memberSteps members ≤ 2 * (writeMembers layout depth members).length
  | [], _ => by simp [memberSteps]
  | (key, value) :: rest, depth => by
    have hvalue := steps_le layout value depth
    have hrest := memberSteps_le layout rest depth
    simp only [writeMembers_cons, memberSteps, membersText, List.length_cons, List.length_append]
    omega

end

theorem ofText_text (hl : layout.Blank) (v : Value) : Document.ofText (v.text layout) = (v.document, true) := by
  have hsteps := steps_le layout v 0
  have hscan := scan_write hl v 0 (Document.stepsFor (v.write layout 0)) []
    (by rw [Document.stepsFor]; omega) (stops_nil _)
  rw [List.append_nil] at hscan
  rw [Document.ofText, text, String.toList_ofList, hscan]
  rfl

end Value

end GpuProfile.Json
