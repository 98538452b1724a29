import GpuProfile.Proofs.SortedMapLaws
import GpuProfile.Storage.Disk

namespace GpuProfile

namespace Path

theorem parts_eq (path : String) : parts path = (path.toList.splitOn '/').map String.ofList :=
  String.splitToList_of_valid path _

theorem getLast?_of_splitOn {c : Char} {cs : List Char} (hne : cs ≠ []) (h : (cs.splitOn c).getLast? = some []) :
    cs.getLast? = some c := by
  induction cs with
  | nil => exact absurd rfl hne
  | cons x rest ih =>
    rw [List.splitOn_cons_eq_if_modifyHead] at h
    cases rest with
    | nil =>
      by_cases hx : x = c
      · rw [hx]
        rfl
      · simp [hx] at h
    | cons y rest =>
      rw [List.getLast?_cons_cons]
      apply ih (List.cons_ne_nil y rest)
      obtain ⟨piece, pieces, hsplit⟩ := List.exists_cons_of_ne_nil (List.splitOn_ne_nil c (y :: rest))
      rw [hsplit] at h ⊢
      split at h
      · rwa [List.getLast?_cons_cons] at h
      · cases pieces with
        | nil => simp at h
        | cons q pieces => simpa using h

theorem getLast?_parts {path : String} (hne : path ≠ "") (h : ¬path.endsWith "/") :
    (parts path).getLast? ≠ some "" := by
  intro hlast
  rw [parts_eq, List.getLast?_map, Option.map_eq_some_iff] at hlast
  obtain ⟨piece, hpiece, hempty⟩ := hlast
  rw [String.ofList_eq_empty_iff.mp hempty] at hpiece
  have hslash := getLast?_of_splitOn (mt String.toList_eq_nil_iff.mp hne) hpiece
  apply h
  rw [String.endsWith_eq_endsWith_toSlice, String.Slice.endsWith_string_iff, String.copy_toSlice]
  exact List.singleton_suffix_iff_getLast?_eq_some.mpr hslash

structure IsName (name : String) : Prop where
  slash : '/' ∉ name.toList
  nul : '\x00' ∉ name.toList
  spoken : isSilent name = false
  descends : name ≠ ".."
  short : name.utf8ByteSize ≤ Disk.maxName

namespace IsName

variable {name : String} (h : IsName name)

include h

theorem ne_empty : name ≠ "" := by
  rintro rfl
  cases h.spoken

theorem parts_eq : parts name = [name] := by
  rw [Path.parts_eq, List.splitOn_eq_singleton h.slash, List.map_singleton, String.ofList_toList]

theorem parent?_eq : parent? name = some "" := by
  have hsilent : dropSilent [name] = [name] := rfl
  have hne := h.ne_empty
  unfold parent?
  rw [h.parts_eq, hsilent]
  grind

theorem not_endsWith : ¬name.endsWith "/" := by
  intro hslash
  rw [String.endsWith_eq_endsWith_toSlice, String.Slice.endsWith_string_iff, String.copy_toSlice] at hslash
  exact h.slash (List.mem_of_getLast? (List.singleton_suffix_iff_getLast?_eq_some.mp hslash))

end IsName

end Path

namespace Disk

def file? (d : Disk) (place : Place) : Option ByteArray :=
  match d.item? place with
  | some (.bytes content) => some content
  | _ => none

theorem file?_eq_some_iff {d : Disk} {place : Place} {content : ByteArray} :
    d.file? place = some content ↔ d.item? place = some (.bytes content) := by
  unfold file?
  split
  · next found h => simp [h]
  · next h => simpa using h content

theorem item?_insert (d : Disk) {place : Place} (h : place ≠ []) (item : DiskItem) (other : Place) :
    (d.insert place item).item? other = if other = place then some item else d.item? other := by
  unfold item? insert
  rw [SortedMap.get?_insert]
  by_cases hroot : other = []
  · simp [hroot, h.symm]
  · simp [hroot]

def KeepsDirectories (d d' : Disk) : Prop :=
  ∀ place, d.item? place = some .directory → d'.item? place = some .directory

theorem KeepsDirectories.trans {d d' d'' : Disk} (h : d.KeepsDirectories d') (h' : d'.KeepsDirectories d'') :
    d.KeepsDirectories d'' := fun place hd => h' place (h place hd)

structure Extends (d d' : Disk) : Prop where
  files : ∀ place, d'.file? place = d.file? place
  directories : d.KeepsDirectories d'

theorem Extends.refl (d : Disk) : d.Extends d := ⟨fun _ => rfl, fun _ => id⟩

theorem extends_troubles (d : Disk) (troubles : List (Option Trouble)) : d.Extends { d with troubles } :=
  ⟨fun _ => rfl, fun _ => id⟩

theorem Extends.trans {d d' d'' : Disk} (h : d.Extends d') (h' : d'.Extends d'') : d.Extends d'' :=
  ⟨fun place => (h'.files place).trans (h.files place), h.directories.trans h'.directories⟩

-- Only directories are looked at on the way, and the last part is not looked up at all.
theorem follow_of_directories {d d' : Disk} (h : d.KeepsDirectories d') {place found : Place} {parts : List String}
    (hf : d.follow place parts = .ok found) : d'.follow place parts = .ok found := by
  induction parts generalizing place with
  | nil => exact hf
  | cons part rest ih =>
    unfold follow at hf ⊢
    split at hf
    · cases hf
    · cases hf
    · next hd =>
      rw [h place hd]
      dsimp only
      split at hf
      · next hs => exact (if_pos hs).trans (ih hf)
      · next hs =>
        rw [if_neg hs]
        split at hf
        · next hp => exact (if_pos hp).trans (ih hf)
        · next hp =>
          rw [if_neg hp]
          split at hf
          · cases hf
          · next hl => exact (if_neg hl).trans (ih hf)

theorem locate_of_directories {d d' : Disk} (h : d.KeepsDirectories d') {path : String} {place : Place}
    (hl : d.locate path = .ok place) : d'.locate path = .ok place := by
  unfold locate at hl ⊢
  cases hparts : partsOf path with
  | error e => rw [hparts] at hl; cases hl
  | ok parts =>
    rw [hparts] at hl
    exact follow_of_directories h hl

theorem locate_of_isName (d : Disk) {name : String} (h : Path.IsName name) : d.locate name = .ok [name] := by
  have hpath : ¬maxPath ≤ name.utf8ByteSize := by
    have := h.short
    unfold maxName at this
    unfold maxPath
    omega
  have hparts : partsOf name = .ok [name] := by
    unfold partsOf
    rw [if_neg (by simpa using h.nul), if_neg (by simpa using h.ne_empty), if_neg hpath, h.parts_eq]
  unfold locate
  rw [hparts]
  change d.follow [] [name] = _
  unfold follow
  rw [show d.item? [] = some .directory from rfl]
  dsimp only
  rw [if_neg (by simp [h.spoken]), if_neg h.descends, if_neg (Nat.not_lt.mpr h.short)]
  rfl

theorem fromUTF8?_eq_some_iff {bytes : ByteArray} {text : String} :
    String.fromUTF8? bytes = some text ↔ bytes = text.toUTF8 := by
  unfold String.fromUTF8?
  rw [String.toUTF8_eq_toByteArray]
  constructor
  · intro h
    split at h
    · rw [← Option.some.inj h]
      rfl
    · cases h
  · rintro rfl
    exact dif_pos text.isValidUTF8

theorem read_eq_some_iff {d : Disk} {path content : String} : d.read path = .ok (some content) ↔
    ∃ place, d.locate path = .ok place ∧ d.file? place = some content.toUTF8 := by
  unfold read find
  cases d.locate path with
  | error e => exact ⟨fun h => (nomatch h), fun ⟨_, h, _⟩ => (nomatch h)⟩
  | ok place =>
    simp only [bind, Except.bind, Except.ok.injEq, exists_eq_left', file?_eq_some_iff]
    cases d.item? place with
    | none => simp
    | some item => cases item <;> simp [fromUTF8?_eq_some_iff]

theorem newPartsOf_eq {path : String} (h : ¬path.endsWith "/") : newPartsOf path = partsOf path := by
  unfold newPartsOf partsOf
  split
  · rfl
  · split
    · rfl
    · next hne =>
      split
      · rfl
      · have hlast := Path.getLast?_parts (by simpa using hne) h
        change Except.ok _ = _
        rw [Except.ok.injEq]
        cases hparts : (Path.parts path).reverse with
        | nil => simp_all
        | cons part rest =>
          rw [← List.head?_reverse, hparts] at hlast
          rw [List.dropWhile_cons_of_neg (by simpa using hlast), ← hparts, List.reverse_reverse]

theorem target_of_slash (d : Disk) {path : String} (h : path.endsWith "/") : ∃ e, d.target path = .error e := by
  unfold target
  cases newPartsOf path with
  | error e => exact ⟨e, rfl⟩
  | ok parts =>
    simp only [h, if_true, bind, Except.bind]
    cases d.follow [] (parts.dropLast ++ ["."]) with
    | error e => exact ⟨e, rfl⟩
    | ok place => exact ⟨.isDirectory, rfl⟩

theorem target_eq (d : Disk) {path : String} (h : ¬path.endsWith "/") :
    d.target path = (d.locate path).bind fun place => match d.item? place with
      | some .directory => .error .isDirectory
      | _ => .ok place := by
  unfold target locate
  rw [newPartsOf_eq h]
  cases partsOf path with
  | error e => rfl
  | ok parts => exact if_neg h

theorem target_eq_ok_iff {d : Disk} {path : String} {place : Place} : d.target path = .ok place ↔
    ¬path.endsWith "/" ∧ d.locate path = .ok place ∧ d.item? place ≠ some .directory := by
  by_cases hslash : path.endsWith "/"
  · obtain ⟨e, he⟩ := d.target_of_slash hslash
    simp [he, hslash]
  · rw [d.target_eq hslash]
    cases d.locate path with
    | error e => simp [Except.bind]
    | ok found =>
      simp only [Except.bind, Except.ok.injEq]
      split
      · next hd =>
        simp only [reduceCtorEq, false_iff, not_and, not_not]
        rintro - rfl
        exact hd
      · next hd =>
        rw [Except.ok.injEq]
        exact ⟨fun he => ⟨hslash, he, he ▸ hd⟩, fun h => h.2.1⟩

theorem write_of_target {d : Disk} {path : String} {place : Place} (content : String) (h : d.target path = .ok place) :
    d.write path content none = (.ok (), d.insert place (.file content)) := by
  unfold write
  rw [h]

theorem write_of_brokenOff {d : Disk} {path : String} {place : Place} (content : String) (size : ℕ) (cause : SystemFault)
    (h : d.target path = .ok place) : d.write path content (some (.brokenOff size cause)) =
      (.error cause, d.insert place (.bytes (content.toUTF8.extract 0 size))) := by
  unfold write
  rw [h]

theorem target_of_isName (d : Disk) {name : String} (h : Path.IsName name)
    (hfree : d.item? [name] ≠ some .directory) : d.target name = .ok [name] :=
  target_eq_ok_iff.mpr ⟨h.not_endsWith, d.locate_of_isName h, hfree⟩

theorem extends_insert {d : Disk} {place : Place} (hvacant : d.item? place = none) :
    d.Extends (d.insert place .directory) := by
  have hroot : place ≠ [] := by
    rintro rfl
    cases hvacant
  refine ⟨fun other => ?_, fun other hd => ?_⟩
  · unfold file?
    rw [item?_insert d hroot]
    by_cases he : other = place
    · rw [if_pos he, he, hvacant]
    · rw [if_neg he]
  · rw [item?_insert d hroot]
    split
    · rfl
    · exact hd

theorem extends_of_addDirectory {d d' : Disk} {path : String} (h : d.addDirectory path = .ok d') : d.Extends d' := by
  simp only [addDirectory, bind, Except.bind] at h
  split at h
  · cases h
  · split at h
    · cases h
    · split at h
      · cases h
      · next hvacant =>
        obtain rfl := Except.ok.inj h
        exact extends_insert (by simpa using hvacant)

structure Writes (d : Disk) (path : String) (bytes : ByteArray) (place : Place) (d' : Disk) : Prop where
  located : d'.locate path = .ok place
  held : d'.file? place = some bytes
  others : ∀ other, other ≠ place → d'.file? other = d.file? other
  directories : d.KeepsDirectories d'

theorem writes_insert {d : Disk} {path : String} {place : Place} (bytes : ByteArray)
    (h : d.target path = .ok place) : d.Writes path bytes place (d.insert place (.bytes bytes)) := by
  obtain ⟨-, hlocated, hfree⟩ := target_eq_ok_iff.mp h
  have hroot : place ≠ [] := by
    rintro rfl
    exact hfree rfl
  have hdirectories : d.KeepsDirectories (d.insert place (.bytes bytes)) := by
    intro other hd
    have hne : other ≠ place := fun he => hfree (he ▸ hd)
    rw [item?_insert d hroot, if_neg hne]
    exact hd
  refine ⟨locate_of_directories hdirectories hlocated, ?_, fun other hne => ?_, hdirectories⟩
  · rw [file?_eq_some_iff, item?_insert d hroot, if_pos rfl]
  · unfold file?
    rw [item?_insert d hroot, if_neg hne]

/-- The file at the end of the path may hold a beginning of the text now, and nothing else happened. -/
def Breaks (d : Disk) (path content : String) (d' : Disk) : Prop :=
  d.Extends d' ∨ ∃ size place, d.Writes path (content.toUTF8.extract 0 size) place d'

theorem write_cases (d : Disk) (path content : String) (trouble : Option Trouble) :
    (∃ place, d.write path content trouble = (.ok (), d.insert place (.file content)) ∧
      d.Writes path content.toUTF8 place (d.insert place (.file content))) ∨
    ∃ e d', d.write path content trouble = (.error e, d') ∧ d.Breaks path content d' := by
  unfold write
  cases htarget : d.target path with
  | error e => exact .inr ⟨e, d, rfl, .inl (.refl d)⟩
  | ok place =>
    match trouble with
    | none => exact .inl ⟨place, rfl, writes_insert _ htarget⟩
    | some (.refused e) => exact .inr ⟨e, d, rfl, .inl (.refl d)⟩
    | some (.brokenOff size e) => exact .inr ⟨e, _, rfl, .inr ⟨size, place, writes_insert _ htarget⟩⟩

namespace Writes

variable {d d' d'' : Disk} {path content : String} {bytes : ByteArray} {place : Place}

theorem read (h : d.Writes path content.toUTF8 place d') : d'.read path = .ok (some content) :=
  read_eq_some_iff.mpr ⟨place, h.located, h.held⟩

theorem of_extends (h : d.Extends d') (h' : d'.Writes path bytes place d'') : d.Writes path bytes place d'' :=
  ⟨h'.located, h'.held, fun other hne => (h'.others other hne).trans (h.files other),
    h.directories.trans h'.directories⟩

theorem read_of_writes {path' : String} {bytes' : ByteArray} {place' : Place}
    (h : d.Writes path content.toUTF8 place d') (h' : d'.Writes path' bytes' place' d'')
    (hne : d''.locate path' ≠ d''.locate path) : d''.read path = .ok (some content) := by
  have hlocated := locate_of_directories h'.directories h.located
  rw [hlocated, h'.located] at hne
  have hplace : place ≠ place' := fun he => hne (congrArg Except.ok he.symm)
  exact read_eq_some_iff.mpr ⟨place, hlocated, (h'.others place hplace).trans h.held⟩

end Writes

theorem Breaks.of_extends {d d' d'' : Disk} {path content : String} (h : d.Extends d')
    (h' : d'.Breaks path content d'') : d.Breaks path content d'' :=
  h'.imp h.trans fun ⟨size, place, hplace⟩ => ⟨size, place, .of_extends h hplace⟩

end Disk

end GpuProfile
