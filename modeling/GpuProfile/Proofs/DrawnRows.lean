import GpuProfile.Proofs.DrawnFrames
import GpuProfile.Proofs.DrawnTexts

namespace GpuProfile

namespace Markup

mutual

def elements (name : String) : Markup → List Markup
  | text _ => []
  | element name' attributes children =>
    (if name' = name then [element name' attributes children] else []) ++ elementsAll name children

def elementsAll (name : String) : List Markup → List Markup
  | [] => []
  | m :: rest => elements name m ++ elementsAll name rest

end

theorem elementsAll_append (name : String) (as bs : List Markup) :
    elementsAll name (as ++ bs) = elementsAll name as ++ elementsAll name bs := by
  induction as with
  | nil => rfl
  | cons m rest ih => rw [List.cons_append, elementsAll, elementsAll, ih, List.append_assoc]

theorem elementsAll_flatMap {τ : Type} (name : String) (f : τ → List Markup) (xs : List τ) :
    elementsAll name (xs.flatMap f) = xs.flatMap fun x => elementsAll name (f x) := by
  induction xs with
  | nil => rfl
  | cons x rest ih => rw [List.flatMap_cons, elementsAll_append, ih, List.flatMap_cons]

end Markup

theorem utf8Len_eq_length {cs : List Char} (h : ∀ c ∈ cs, c.utf8Size = 1) : String.utf8Len cs = cs.length := by
  induction cs with
  | nil => rfl
  | cons c rest ih =>
    obtain ⟨hc, hrest⟩ := List.forall_mem_cons.mp h
    rw [String.utf8Len_cons, ih hrest, hc, List.length_cons]

theorem utf8Size_of_isDigit {c : Char} (h : c.isDigit) : c.utf8Size = 1 := by
  simp only [Char.isDigit, Bool.and_eq_true, decide_eq_true_eq] at h
  have hascii : c.val ≤ 0x7f := UInt32.le_trans h.2 (by decide)
  exact if_pos hascii

namespace Flamegraph

theorem utf8Size_shortName (command : CommandIndex) : ∀ c ∈ (shortName command).toList, c.utf8Size = 1 := by
  unfold shortName
  split
  · intro c hc
    rw [String.toList_append, Nat.toString_eq_repr, Nat.toList_repr, List.mem_append] at hc
    rcases hc with hc | hc
    · rw [List.mem_singleton.mp hc]
      decide
    · exact utf8Size_of_isDigit (Nat.isDigit_of_mem_toDigits (by decide) (by decide) hc)
  · simp [show Char.utf8Size 'a' = 1 from rfl, show Char.utf8Size 'l' = 1 from rfl]

section

variable {name : String} (h : ∀ c ∈ name.toList, c.utf8Size = 1)

include h

theorem utf8ByteSize_eq_length : name.utf8ByteSize = name.length := by
  have hbytes := String.utf8ByteSize_ofList name.toList
  rw [String.ofList_toList, utf8Len_eq_length h] at hbytes
  rw [hbytes, String.length_toList]

theorem utf8Len_take {k : ℕ} (hk : k ≤ name.utf8ByteSize) : String.utf8Len (name.toList.take k) = k := by
  rw [utf8Len_eq_length fun c hc => h c (List.mem_of_mem_take hc), List.length_take, String.length_toList,
    ← utf8ByteSize_eq_length h, min_eq_left hk]

theorem isValid_of_le {k : ℕ} (hk : k ≤ name.utf8ByteSize) : String.Pos.Raw.IsValid name ⟨k⟩ := by
  rw [String.Pos.Raw.isValid_iff_exists_take_toList]
  exact ⟨k, by rw [String.utf8ByteSize_ofList, utf8Len_take h hk]⟩

theorem extract_eq_take {k : ℕ} (hk : k ≤ name.utf8ByteSize) :
    String.Pos.Raw.extract name 0 ⟨k⟩ = String.ofList (name.toList.take k) := by
  have hextract := String.extract_of_valid [] (name.toList.take k) (name.toList.drop k)
  rw [List.nil_append, List.take_append_drop, String.ofList_toList, utf8Len_take h hk] at hextract
  simpa using hextract

theorem fit_eq_extract (room : ℕ) : fit name room =
    if room < name.utf8ByteSize ∧ 3 < room then String.Pos.Raw.extract name 0 ⟨room - 3⟩ ++ "..." else name := by
  rw [fit, ← utf8ByteSize_eq_length h]
  split
  · next hlong => rw [extract_eq_take h (by omega)]
  · rfl

end

theorem rows_fit {height level : ℕ} (h : level ≤ height) : (level + 1) * rowHeight ≤ graphHeight height :=
  Nat.mul_le_mul_right _ (by omega)

theorem rowTop_bounds {height level : ℕ} (h : level ≤ height) : headHeight ≤ rowTop height level ∧
    rowTop height level + rowHeight ≤ graphHeight height + headHeight := by
  have hfit := rows_fit h
  have hone : rowHeight ≤ (level + 1) * rowHeight := Nat.le_mul_of_pos_left _ (by omega)
  rw [rowTop]
  omega

theorem rowTop_succ {height level : ℕ} (h : level + 1 ≤ height) :
    rowTop height (level + 1) + rowHeight = rowTop height level := by
  have hfit := rows_fit h
  rw [rowTop, rowTop]
  rw [Nat.add_mul (level + 1) 1, Nat.one_mul] at hfit ⊢
  omega

def box (unit : String) (height : ℕ) (f : Frame Float) : Markup :=
  .element "rect"
    [("x", Decimal.fixedText f.x 2), ("y", toString (rowTop height f.level)), ("width", Decimal.fixedText f.width 2),
      ("height", toString rowHeight), ("fill", colour f.level), ("class", "cmd")]
    [.element "title" [] [.text (caption unit f)]]

theorem rects_drawFrame (unit : String) (height : ℕ) (f : Frame Float) :
    Markup.elementsAll "rect" (drawFrame unit height f) = [box unit height f] := by
  unfold drawFrame
  dsimp only
  split <;> rfl

theorem rects_draw (settings : Settings) (metric : Metric) (tree : CommandTree Float) :
    (draw settings metric tree).elements "rect" = (tree.frames settings.width).map (box metric.unit tree.height) := by
  have hframes : Markup.elementsAll "rect" ((tree.frames settings.width).flatMap (drawFrame metric.unit tree.height)) =
      (tree.frames settings.width).map (box metric.unit tree.height) := by
    rw [Markup.elementsAll_flatMap]
    simp only [rects_drawFrame]
    exact List.map_eq_flatMap.symm
  simp only [draw, Markup.elements, Markup.elementsAll, Markup.elementsAll_append, hframes]
  simp

section

variable (settings : Settings) (profile : Profile Float)

def tree : CommandTree Float := .ofEntries settings.metric profile.entries

def frames : List (Frame Float) := (tree settings profile).frames settings.width

theorem indexed_tree : (tree settings profile).Indexed ∧ (tree settings profile).command = ⟨[]⟩ :=
  CommandTree.indexed_ofEntries _ _

variable {settings profile}

theorem level_of_mem_frames {f : Frame Float} (hf : f ∈ frames settings profile) :
    f.level = f.command.depth ∧ f.level ≤ (tree settings profile).height := by
  obtain ⟨hindexed, hroot⟩ := indexed_tree settings profile
  obtain ⟨-, node, hnode⟩ := CommandTree.mem_frames_iff.mp hf
  exact ⟨(hnode.at?_command hindexed hroot).2.1, hnode.level_le hindexed⟩

theorem drawn_in_rows {page : Markup} (h : ofProfile settings profile = .ok page) :
    ∃ metric, profile.metric? settings.metric = some metric ∧
      page.elements "rect" = (frames settings profile).map (box metric.unit (tree settings profile).height) ∧
      (∃ attributes children, page = .element "svg" attributes children ∧
        ("height", toString (graphHeight (tree settings profile).height + marginHeight)) ∈ attributes) ∧
      (∀ f, f ∈ frames settings profile ↔
        f.Visible ∧ ∃ node, (tree settings profile).Visited settings.width f node) ∧
      (∀ f node, (tree settings profile).Visited settings.width f node → f.level ≤ (tree settings profile).height ∧
        (f.level + 1) * rowHeight ≤ graphHeight (tree settings profile).height) ∧
      (∀ f ∈ frames settings profile, headHeight ≤ rowTop (tree settings profile).height f.level ∧
        rowTop (tree settings profile).height f.level + rowHeight ≤
          graphHeight (tree settings profile).height + headHeight) ∧
      graphHeight (tree settings profile).height + headHeight <
        graphHeight (tree settings profile).height + marginHeight ∧
      (∀ g ∈ frames settings profile, g.command ≠ ⟨[]⟩ →
        ∃ f ∈ frames settings profile, ∃ part, g.command = f.command.child part) ∧
      (∀ f ∈ frames settings profile, ∀ g ∈ frames settings profile, ∀ part, g.command = f.command.child part →
        rowTop (tree settings profile).height g.level + rowHeight = rowTop (tree settings profile).height f.level) ∧
      ∀ command width,
        (room width < (shortName command).utf8ByteSize → 3 < room width →
          String.Pos.Raw.IsValid (shortName command) ⟨room width - 3⟩) ∧
        fit (shortName command) (room width) =
          if room width < (shortName command).utf8ByteSize ∧ 3 < room width then
            String.Pos.Raw.extract (shortName command) 0 ⟨room width - 3⟩ ++ "..."
          else shortName command := by
  obtain ⟨-, metric, hmetric, rfl⟩ := ofProfile_eq_ok_iff.mp h
  obtain ⟨hindexed, hroot⟩ := indexed_tree settings profile
  refine ⟨metric, (additive?_eq_ok_iff.mp hmetric).1, rects_draw _ _ _, ⟨_, _, rfl, by simp [tree]⟩,
    fun f => CommandTree.mem_frames_iff, fun f node hf => ?_, fun f hf => ?_, ?_, fun g hg hne => ?_,
    fun f hf g hg part hchild => ?_, fun command width => ⟨fun hlong _ => ?_, ?_⟩⟩
  · exact ⟨hf.level_le hindexed, rows_fit (hf.level_le hindexed)⟩
  · exact rowTop_bounds (level_of_mem_frames hf).2
  · exact Nat.add_lt_add_left (by decide) _
  · obtain ⟨-, node, hnode⟩ := CommandTree.mem_frames_iff.mp hg
    obtain ⟨f, hf, -, -, part, -, -, -, -, -, hchild⟩ := hnode.parent hindexed hroot hne
    exact ⟨f, hf, part, hchild⟩
  · obtain ⟨hdepth, hle⟩ := level_of_mem_frames hg
    have hlevel : g.level = f.level + 1 := by
      rw [hdepth, (level_of_mem_frames hf).1, hchild]
      simp [CommandIndex.depth, CommandIndex.child]
    rw [hlevel] at hle ⊢
    exact rowTop_succ hle
  · exact isValid_of_le (utf8Size_shortName command) (by omega)
  · exact fit_eq_extract (utf8Size_shortName command) _

end

def Unbounded.profile : Profile Float :=
  ⟨[.gpuTime, ⟨2, "Reads", "B", .summation⟩],
    [⟨⟨[0]⟩, .ofList [(2, .exact (1 / 0))]⟩, ⟨⟨[0, 1]⟩, .ofList [(2, .exact (1 / 0))]⟩]⟩

def Unbounded.settings : Settings := ⟨"Frame", 800, 2⟩

theorem unbounded_in_rows : ∃ page, ofProfile Unbounded.settings Unbounded.profile = .ok page ∧
    (frames Unbounded.settings Unbounded.profile).map (·.command.parts) = [[], [0], [0, 1]] ∧
    page.elements "rect" = (frames Unbounded.settings Unbounded.profile).map (box "B" 2) ∧
    (∀ f ∈ frames Unbounded.settings Unbounded.profile, headHeight ≤ rowTop 2 f.level ∧
      rowTop 2 f.level + rowHeight ≤ graphHeight 2 + headHeight) ∧
    fit (shortName ⟨[12345678]⟩) (room (7 * 5)) = "#1..." := by
  have h : ofProfile Unbounded.settings Unbounded.profile =
      .ok (draw Unbounded.settings ⟨2, "Reads", "B", .summation⟩ (.ofEntries 2 Unbounded.profile.entries)) := rfl
  have hheight : (tree Unbounded.settings Unbounded.profile).height = 2 := by decide +kernel
  obtain ⟨metric, hmetric, hrects, -, -, -, hrows, -⟩ := drawn_in_rows h
  obtain rfl : metric = ⟨2, "Reads", "B", .summation⟩ := (Option.some.inj hmetric).symm
  rw [hheight] at hrects hrows
  exact ⟨_, h, by decide +kernel, hrects, hrows, by decide +kernel⟩

example : room (1 / 0) = UInt64.size - 1 ∧ room (0 / 0) = 0 := by decide +kernel

end Flamegraph

end GpuProfile
