import Mathlib
import GpuProfile.Markup

/-!
Marked up text as a reader takes it: every bracket belongs to a tag, every ampersand begins an entity, and
between the tags stand the texts, with their entities undone. What is written is read as it was meant,
whatever the texts and the values of the attributes hold.
-/

namespace GpuProfile

namespace Markup

def entities : List (List Char) :=
  [['&', 'a', 'm', 'p', ';'], ['&', 'l', 't', ';'], ['&', 'g', 't', ';'], ['&', 'q', 'u', 'o', 't', ';']]

def NamesEntities (cs : List Char) : Prop := ∀ rest, '&' :: rest <:+ cs → ∃ e ∈ entities, e <+: '&' :: rest

def readText : List Char → Option (List Char)
  | [] => some []
  | '&' :: 'a' :: 'm' :: 'p' :: ';' :: cs => (readText cs).map ('&' :: ·)
  | '&' :: 'l' :: 't' :: ';' :: cs => (readText cs).map ('<' :: ·)
  | '&' :: 'g' :: 't' :: ';' :: cs => (readText cs).map ('>' :: ·)
  | '&' :: 'q' :: 'u' :: 'o' :: 't' :: ';' :: cs => (readText cs).map ('"' :: ·)
  | c :: cs => if c ∈ ['&', '<', '>'] then none else (readText cs).map (c :: ·)

inductive Tag where
  | opening (name attributes : List Char)
  | closing (name : List Char)
  deriving DecidableEq

def Tag.ofText : List Char → Tag
  | '/' :: name => closing name
  | cs => opening (cs.takeWhile (· ≠ ' ')) (cs.dropWhile (· ≠ ' '))

structure Piece where
  tag : Tag
  text : List Char
  deriving DecidableEq

def readPiece (cs : List Char) : Option Piece :=
  match cs.splitOn '>' with
  | [tag, behind] => (readText behind).map (Piece.mk (.ofText tag))
  | _ => none

def read (cs : List Char) : Option (List Char × List Piece) :=
  match cs.splitOn '<' with
  | [] => none
  | lead :: rest => (readText lead).bind fun lead => (rest.mapM readPiece).map (lead, ·)

/-- Each tag that opens an element is closed by one of the same name, and elements are nested. -/
inductive Balanced : List Tag → Prop
  | nil : Balanced []
  | element {name attributes inner rest} : Balanced inner → Balanced rest →
      Balanced (.opening name attributes :: inner ++ .closing name :: rest)

theorem Balanced.append {a b : List Tag} (ha : Balanced a) (hb : Balanced b) : Balanced (a ++ b) := by
  induction ha with
  | nil => exact hb
  | element hinner _ _ ih =>
    rw [List.append_assoc, List.cons_append]
    exact .element hinner ih

theorem escape_cases (c : Char) : escape c ∈ entities ∨ c ≠ '&' ∧ c ≠ '<' ∧ c ≠ '>' ∧ escape c = [c] := by
  unfold escape
  split
  · decide
  · decide
  · decide
  · decide
  · next hamp hlt hgt _ => exact .inr ⟨hamp, hlt, hgt, rfl⟩

theorem readText_escape (c : Char) (cs : List Char) : readText (escape c ++ cs) = (readText cs).map (c :: ·) := by
  unfold escape
  split
  · rfl
  · rfl
  · rfl
  · rfl
  · next hamp hlt hgt hquot =>
    rw [List.cons_append, List.nil_append, readText.eq_6 c cs]
    all_goals simp_all

theorem readText_escapeAll (s : String) (cs : List Char) :
    readText (escapeAll s ++ cs) = (readText cs).map (s.toList ++ ·) := by
  unfold escapeAll
  induction s.toList with
  | nil => simp
  | cons c rest ih =>
    rw [List.flatMap_cons, List.append_assoc, readText_escape, ih, Option.map_map]
    rfl

theorem bracket_notMem_escapeAll (s : String) : '<' ∉ escapeAll s ∧ '>' ∉ escapeAll s := by
  have hentity : ∀ e ∈ entities, '<' ∉ e ∧ '>' ∉ e := by decide
  have hchar : ∀ c, '<' ∉ escape c ∧ '>' ∉ escape c := by
    intro c
    obtain he | ⟨-, hlt, hgt, he⟩ := escape_cases c
    · exact hentity _ he
    · rw [he]
      exact ⟨mt List.mem_singleton.mp hlt.symm, mt List.mem_singleton.mp hgt.symm⟩
  simp only [escapeAll, List.mem_flatMap, not_exists, not_and]
  exact ⟨fun c _ => (hchar c).1, fun c _ => (hchar c).2⟩

theorem bracket_notMem_of_readText {cs text : List Char} (h : readText cs = some text) : '<' ∉ cs ∧ '>' ∉ cs := by
  fun_induction readText cs generalizing text with
  | case1 => simp
  | case2 cs ih | case3 cs ih | case4 cs ih | case5 cs ih =>
    obtain ⟨rest, hrest, -⟩ := Option.map_eq_some_iff.mp h
    simpa using ih hrest
  | case6 => cases h
  | case7 c cs _ _ _ _ hc ih =>
    obtain ⟨rest, hrest, -⟩ := Option.map_eq_some_iff.mp h
    simp_all [eq_comm]

theorem namesEntities_of_notMem {cs : List Char} (h : '&' ∉ cs) : NamesEntities cs := fun _ hrest =>
  absurd (hrest.subset List.mem_cons_self) h

theorem namesEntities_entity {e : List Char} (he : e ∈ entities) : NamesEntities e := by
  have hform : ∀ e ∈ entities, e = '&' :: e.tail ∧ '&' ∉ e.tail := by decide
  obtain ⟨hhead, htail⟩ := hform e he
  intro rest hrest
  rw [hhead, List.suffix_cons_iff] at hrest
  rcases hrest with hrest | hrest
  · exact ⟨e, he, by rw [hrest, ← hhead]⟩
  · exact absurd (hrest.subset List.mem_cons_self) htail

theorem NamesEntities.append {a b : List Char} (ha : NamesEntities a) (hb : NamesEntities b) :
    NamesEntities (a ++ b) := by
  rintro rest ⟨before, h⟩
  rcases List.append_eq_append_iff.mp h with ⟨cs, rfl, hcs⟩ | ⟨cs, -, rfl⟩
  · cases cs with
    | nil => exact hb rest ⟨[], hcs⟩
    | cons c cs =>
      obtain ⟨rfl, rfl⟩ := List.cons.inj hcs
      obtain ⟨e, he, hprefix⟩ := ha cs (List.suffix_append _ _)
      exact ⟨e, he, hprefix.trans (List.prefix_append _ _)⟩
  · exact hb rest (List.suffix_append _ _)

theorem namesEntities_escapeAll (s : String) : NamesEntities (escapeAll s) := by
  unfold escapeAll
  induction s.toList with
  | nil => exact namesEntities_of_notMem (by simp)
  | cons c rest ih =>
    rw [List.flatMap_cons]
    refine NamesEntities.append ?_ ih
    obtain he | ⟨hamp, -, -, he⟩ := escape_cases c
    · exact namesEntities_entity he
    · rw [he]
      exact namesEntities_of_notMem (mt List.mem_singleton.mp hamp.symm)

def PlainName (name : String) : Prop := ∀ c ∈ name.toList, c.isAlphanum ∨ c = '-'

instance (name : String) : Decidable (PlainName name) := inferInstanceAs (Decidable (∀ c ∈ name.toList, _))

theorem PlainName.notMem {name : String} (h : PlainName name) {c : Char} (hc : ¬c.isAlphanum ∧ c ≠ '-') :
    c ∉ name.toList := fun hmem => (h c hmem).elim hc.1 hc.2

def writeAttributes (attributes : List (String × String)) : List Char := attributes.flatMap writeAttribute

mutual

def names : Markup → List String
  | text _ => []
  | element name attributes children => name :: attributes.map (·.1) ++ namesAll children

def namesAll : List Markup → List String
  | [] => []
  | m :: rest => names m ++ namesAll rest

end

mutual

def tags : Markup → List Tag
  | text _ => []
  | element name attributes children =>
    .opening name.toList (writeAttributes attributes) :: tagsAll children ++ [.closing name.toList]

def tagsAll : List Markup → List Tag
  | [] => []
  | m :: rest => tags m ++ tagsAll rest

end

mutual

def front : Markup → List Char × List Piece → List Char × List Piece
  | text content, (lead, pieces) => (content.toList ++ lead, pieces)
  | element name attributes children, (lead, pieces) =>
    let (inner, rest) := frontAll children ([], ⟨.closing name.toList, lead⟩ :: pieces)
    ([], ⟨.opening name.toList (writeAttributes attributes), inner⟩ :: rest)

def frontAll : List Markup → List Char × List Piece → List Char × List Piece
  | [], found => found
  | m :: rest, found => front m (frontAll rest found)

end

mutual

theorem balanced_tags : (m : Markup) → Balanced m.tags
  | text _ => .nil
  | element _ _ children => .element (balanced_tagsAll children) .nil

theorem balanced_tagsAll : (ms : List Markup) → Balanced (tagsAll ms)
  | [] => .nil
  | m :: rest => (balanced_tags m).append (balanced_tagsAll rest)

end

mutual

theorem tags_front : (m : Markup) → (found : List Char × List Piece) →
    (m.front found).2.map Piece.tag = m.tags ++ found.2.map Piece.tag
  | text _, _ => rfl
  | element name attributes children, (lead, pieces) => by
    have hinner := tags_frontAll children ([], ⟨.closing name.toList, lead⟩ :: pieces)
    simp only [front, tags, List.map_cons, hinner, List.cons_append, List.append_assoc, List.nil_append]

theorem tags_frontAll : (ms : List Markup) → (found : List Char × List Piece) →
    (frontAll ms found).2.map Piece.tag = tagsAll ms ++ found.2.map Piece.tag
  | [], _ => rfl
  | m :: rest, found => by
    rw [frontAll, tags_front m, tags_frontAll rest, tagsAll, List.append_assoc]

end

theorem read_eq_some_iff {cs lead : List Char} {pieces : List Piece} : read cs = some (lead, pieces) ↔
    ∃ first rest, cs.splitOn '<' = first :: rest ∧ readText first = some lead ∧ rest.mapM readPiece = some pieces := by
  unfold read
  split
  · next h => simp [h]
  · next first rest h => simp [h, Option.bind_eq_some_iff, Option.map_eq_some_iff, and_assoc]

theorem splitOn_append_of_notMem {c : Char} {cs : List Char} (h : c ∉ cs) (rest : List Char) :
    (cs ++ rest).splitOn c = (rest.splitOn c).modifyHead (cs ++ ·) := by
  induction cs with
  | nil => cases hrest : rest.splitOn c <;> simp [hrest]
  | cons d cs ih =>
    obtain ⟨hd, hcs⟩ := not_or.mp (mt List.mem_cons.mpr h)
    rw [List.cons_append, List.splitOn_cons_eq_if_modifyHead, if_neg (by simpa using Ne.symm hd), ih hcs,
      List.modifyHead_modifyHead]
    rfl

section

variable {cs lead : List Char} {pieces : List Piece} (h : read cs = some (lead, pieces))

include h

theorem read_text (s : String) : read (escapeAll s ++ cs) = some (s.toList ++ lead, pieces) := by
  obtain ⟨first, rest, hsplit, hfirst, hrest⟩ := read_eq_some_iff.mp h
  refine read_eq_some_iff.mpr ⟨escapeAll s ++ first, rest, ?_, ?_, hrest⟩
  · rw [splitOn_append_of_notMem (bracket_notMem_escapeAll s).1, hsplit]
    rfl
  · rw [readText_escapeAll, hfirst]
    rfl

theorem read_tag (inner : List Char) (hlt : '<' ∉ inner) (hgt : '>' ∉ inner) :
    read ('<' :: inner ++ '>' :: cs) = some ([], ⟨.ofText inner, lead⟩ :: pieces) := by
  obtain ⟨first, rest, hsplit, hfirst, hrest⟩ := read_eq_some_iff.mp h
  refine read_eq_some_iff.mpr ⟨[], (inner ++ '>' :: first) :: rest, ?_, rfl, ?_⟩
  · have hbracket : '<' ∉ inner ++ ['>'] := by simpa using hlt
    rw [List.cons_append, List.splitOn_cons_eq_if_modifyHead, if_pos (by rfl), List.append_cons,
      splitOn_append_of_notMem hbracket, hsplit, List.modifyHead_cons, List.append_assoc, List.singleton_append]
  · have hpiece : readPiece (inner ++ '>' :: first) = some ⟨.ofText inner, lead⟩ := by
      rw [readPiece, List.splitOn_append_cons_self_of_not_mem hgt,
        List.splitOn_eq_singleton (bracket_notMem_of_readText hfirst).2]
      exact congrArg (Option.map (Piece.mk (.ofText inner))) hfirst
    rw [List.mapM_cons, hpiece, hrest]
    rfl

end

theorem ofText_opening {name : String} (h : PlainName name) (attributes : List (String × String)) :
    Tag.ofText (name.toList ++ writeAttributes attributes) = .opening name.toList (writeAttributes attributes) := by
  have hspace : ∀ c ∈ name.toList, decide (c ≠ ' ') := fun c hc =>
    decide_eq_true fun he => h.notMem (c := ' ') (by decide) (he ▸ hc)
  have hattributes : (writeAttributes attributes).takeWhile (· ≠ ' ') = [] ∧
      (writeAttributes attributes).dropWhile (· ≠ ' ') = writeAttributes attributes := by
    cases attributes <;> exact ⟨rfl, rfl⟩
  have hslash : ∀ rest, name.toList ++ writeAttributes attributes ≠ '/' :: rest := by
    intro rest he
    cases hname : name.toList with
    | nil =>
      rw [hname] at he
      cases attributes <;> cases he
    | cons c cs =>
      rw [hname, List.cons_append] at he
      exact h.notMem (c := '/') (by decide) (hname ▸ (List.cons.inj he).1 ▸ List.mem_cons_self)
  rw [Tag.ofText.eq_2 _ hslash, List.takeWhile_append_of_pos hspace, List.dropWhile_append_of_pos hspace,
    hattributes.1, hattributes.2, List.append_nil]

theorem notMem_writeAttributes {attributes : List (String × String)}
    (h : ∀ name ∈ attributes.map (·.1), PlainName name) :
    '<' ∉ writeAttributes attributes ∧ '>' ∉ writeAttributes attributes := by
  have hname : ∀ a ∈ attributes, PlainName a.1 := fun a ha => h a.1 (List.mem_map_of_mem ha)
  simp only [writeAttributes, List.mem_flatMap, not_exists, not_and]
  have hone : ∀ a ∈ attributes, '<' ∉ writeAttribute a ∧ '>' ∉ writeAttribute a := by
    intro a ha
    have hvalue := bracket_notMem_escapeAll a.2
    have hlt := (hname a ha).notMem (c := '<') (by decide)
    have hgt := (hname a ha).notMem (c := '>') (by decide)
    simp only [writeAttribute, List.mem_cons, List.mem_append, List.cons_append, List.not_mem_nil, or_false]
    exact ⟨by simp [hlt, hvalue.1], by simp [hgt, hvalue.2]⟩
  exact ⟨fun a ha => (hone a ha).1, fun a ha => (hone a ha).2⟩

theorem namesEntities_writeAttributes {attributes : List (String × String)}
    (h : ∀ name ∈ attributes.map (·.1), PlainName name) : NamesEntities (writeAttributes attributes) := by
  induction attributes with
  | nil => exact namesEntities_of_notMem (by simp [writeAttributes])
  | cons a rest ih =>
    obtain ⟨ha, hrest⟩ := List.forall_mem_cons.mp h
    refine NamesEntities.append ?_ (ih hrest)
    have hname : '&' ∉ ' ' :: a.1.toList ++ ['=', '"'] := by
      have hamp := ha.notMem (c := '&') (by decide)
      simpa using hamp
    have hvalue := (namesEntities_of_notMem hname).append (namesEntities_escapeAll a.2)
    have hquote : '&' ∉ ['"'] := by decide
    have hone := hvalue.append (namesEntities_of_notMem hquote)
    simpa [writeAttribute] using hone

section

variable {name : String} {attributes : List (String × String)} {children : List Markup}
  (h : ∀ n ∈ (element name attributes children).names, PlainName n)

include h

theorem plain_element : PlainName name ∧ (∀ n ∈ attributes.map (·.1), PlainName n) ∧
    ∀ n ∈ namesAll children, PlainName n := by
  obtain ⟨hname, hrest⟩ := List.forall_mem_cons.mp h
  exact ⟨hname, List.forall_mem_append.mp hrest⟩

end

mutual

theorem read_front : (m : Markup) → (∀ n ∈ m.names, PlainName n) → {cs : List Char} →
    {found : List Char × List Piece} → read cs = some found → read (m.write ++ cs) = some (m.front found)
  | text content, _, _, (_, _), hread => read_text hread content
  | element name attributes children, h, cs, (lead, pieces), hread => by
    obtain ⟨hname, hattributes, hchildren⟩ := plain_element h
    have hlt := hname.notMem (c := '<') (by decide)
    have hgt := hname.notMem (c := '>') (by decide)
    have hwritten := notMem_writeAttributes hattributes
    have hclose := read_tag hread ('/' :: name.toList) (by simpa using hlt) (by simpa using hgt)
    have hinner := read_frontAll children hchildren hclose
    have hopen := read_tag hinner (name.toList ++ writeAttributes attributes)
      (by simp [hlt, hwritten.1]) (by simp [hgt, hwritten.2])
    rw [ofText_opening hname] at hopen
    simpa [write, front, writeAttributes, Tag.ofText] using hopen

theorem read_frontAll : (ms : List Markup) → (∀ n ∈ namesAll ms, PlainName n) → {cs : List Char} →
    {found : List Char × List Piece} → read cs = some found → read (writeAll ms ++ cs) = some (frontAll ms found)
  | [], _, _, _, hread => hread
  | m :: rest, h, cs, found, hread => by
    obtain ⟨hm, hrest⟩ := List.forall_mem_append.mp h
    rw [writeAll, List.append_assoc, frontAll]
    exact read_front m hm (read_frontAll rest hrest hread)

end

mutual

theorem namesEntities_write : (m : Markup) → (∀ n ∈ m.names, PlainName n) → NamesEntities m.write
  | text content, _ => namesEntities_escapeAll content
  | element name attributes children, h => by
    obtain ⟨hname, hattributes, hchildren⟩ := plain_element h
    have hamp := hname.notMem (c := '&') (by decide)
    have hopen : NamesEntities ('<' :: name.toList) := namesEntities_of_notMem (by simpa using hamp)
    have hend : NamesEntities ['>'] := namesEntities_of_notMem (by decide)
    have hclose : NamesEntities ('<' :: '/' :: name.toList ++ ['>']) := namesEntities_of_notMem (by simpa using hamp)
    have hinner := namesEntities_writeAll children hchildren
    have hall := (hopen.append (namesEntities_writeAttributes hattributes)).append (hend.append (hinner.append hclose))
    simpa [write, writeAttributes] using hall

theorem namesEntities_writeAll : (ms : List Markup) → (∀ n ∈ namesAll ms, PlainName n) → NamesEntities (writeAll ms)
  | [], _ => namesEntities_of_notMem (by simp [writeAll])
  | m :: rest, h => by
    obtain ⟨hm, hrest⟩ := List.forall_mem_append.mp h
    exact (namesEntities_write m hm).append (namesEntities_writeAll rest hrest)

end

def pieces (m : Markup) : List Piece := (m.front ([], [])).2

theorem tags_pieces (m : Markup) : m.pieces.map Piece.tag = m.tags := by
  have h := tags_front m ([], [])
  rwa [List.map_nil, List.append_nil] at h

theorem read_render {m : Markup} (h : ∀ n ∈ m.names, PlainName n) :
    read m.render.toList = some (m.front ([], [])) := by
  have hnothing : read [] = some ([], []) := rfl
  have hread := read_front m h hnothing
  rw [List.append_nil] at hread
  rwa [render, String.toList_ofList]

theorem namesEntities_render {m : Markup} (h : ∀ n ∈ m.names, PlainName n) : NamesEntities m.render.toList := by
  rw [render, String.toList_ofList]
  exact namesEntities_write m h

def replace (c : Char) (name cs : List Char) : List Char := cs.flatMap fun d => if d = c then name else [d]

theorem escapeAll_eq_replace (s : String) : escapeAll s =
    replace '"' ['&', 'q', 'u', 'o', 't', ';'] (replace '>' ['&', 'g', 't', ';']
      (replace '<' ['&', 'l', 't', ';'] (replace '&' ['&', 'a', 'm', 'p', ';'] s.toList))) := by
  simp only [replace, List.flatMap_assoc, escapeAll]
  congr 1
  funext c
  unfold escape
  split
  · rfl
  · rfl
  · rfl
  · rfl
  · next hamp hlt hgt hquot =>
    rw [if_neg hamp, List.flatMap_singleton, if_neg hlt, List.flatMap_singleton, if_neg hgt, List.flatMap_singleton,
      if_neg hquot]

end Markup

end GpuProfile
