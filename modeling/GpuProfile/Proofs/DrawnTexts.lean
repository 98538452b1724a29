import GpuProfile.Proofs.ReadMarkup
import GpuProfile.Flamegraph.Svg

namespace GpuProfile

namespace Markup

theorem frontAll_append (as bs : List Markup) (found : List Char × List Piece) :
    frontAll (as ++ bs) found = frontAll as (frontAll bs found) := by
  induction as with
  | nil => rfl
  | cons m rest ih => rw [List.cons_append, frontAll, frontAll, ih]

mutual

theorem exists_front : (m : Markup) → (lead : List Char) → (pieces : List Piece) →
    ∃ lead' added, m.front (lead, pieces) = (lead', added ++ pieces)
  | text content, lead, pieces => ⟨content.toList ++ lead, [], rfl⟩
  | element name attributes children, lead, pieces => by
    obtain ⟨inner, added, h⟩ := exists_frontAll children [] (⟨.closing name.toList, lead⟩ :: pieces)
    refine ⟨[], ⟨.opening name.toList (writeAttributes attributes), inner⟩ :: added ++ [⟨.closing name.toList, lead⟩],
      ?_⟩
    simp only [front, h, List.cons_append, List.append_assoc, List.nil_append]

theorem exists_frontAll : (ms : List Markup) → (lead : List Char) → (pieces : List Piece) →
    ∃ lead' added, frontAll ms (lead, pieces) = (lead', added ++ pieces)
  | [], lead, _ => ⟨lead, [], rfl⟩
  | m :: rest, lead, pieces => by
    obtain ⟨lead', added, hrest⟩ := exists_frontAll rest lead pieces
    obtain ⟨lead'', added', hm⟩ := exists_front m lead' (added ++ pieces)
    exact ⟨lead'', added' ++ added, by rw [frontAll, hrest, hm, List.append_assoc]⟩

end

theorem namesAll_append (as bs : List Markup) : namesAll (as ++ bs) = namesAll as ++ namesAll bs := by
  induction as with
  | nil => rfl
  | cons m rest ih => rw [List.cons_append, namesAll, namesAll, ih, List.append_assoc]

theorem tagsAll_append (as bs : List Markup) : tagsAll (as ++ bs) = tagsAll as ++ tagsAll bs := by
  induction as with
  | nil => rfl
  | cons m rest ih => rw [List.cons_append, tagsAll, tagsAll, ih, List.append_assoc]

variable {τ : Type} (f : τ → List Markup) (xs : List τ)

theorem namesAll_flatMap : namesAll (xs.flatMap f) = xs.flatMap fun x => namesAll (f x) := by
  induction xs with
  | nil => rfl
  | cons x rest ih => rw [List.flatMap_cons, namesAll_append, ih, List.flatMap_cons]

theorem tagsAll_flatMap : tagsAll (xs.flatMap f) = xs.flatMap fun x => tagsAll (f x) := by
  induction xs with
  | nil => rfl
  | cons x rest ih => rw [List.flatMap_cons, tagsAll_append, ih, List.flatMap_cons]

end Markup

namespace Profile

variable {α : Type}

def rename (p : Profile α) (id : MetricId) (name unit : String) : Profile α :=
  { p with metrics := p.metrics.map fun m => if m.id == id then { m with name, unit } else m }

theorem metric?_rename (p : Profile α) (id : MetricId) (name unit : String) :
    (p.rename id name unit).metric? id = (p.metric? id).map fun m => { m with name, unit } := by
  rw [rename, metric?, metric?]
  induction p.metrics with
  | nil => rfl
  | cons m rest ih =>
    rw [List.map_cons, List.find?_cons, List.find?_cons]
    cases hm : m.id == id
    · simp only [Bool.false_eq_true, if_false, hm, ih]
    · simp only [if_true, hm, Option.map_some]

end Profile

namespace Flamegraph

open Markup

theorem additive?_eq_ok_iff {profile : Profile Float} {id : MetricId} {metric : Metric} :
    additive? profile id = .ok metric ↔ profile.metric? id = some metric ∧ metric.isAdditive := by
  unfold additive?
  cases profile.metric? id with
  | none => simp
  | some found =>
    dsimp only
    split
    · next ha =>
      refine ⟨fun h => ⟨congrArg some (Except.ok.inj h), Except.ok.inj h ▸ ha⟩, fun h => ?_⟩
      rw [Option.some.inj h.1]
    · next ha => exact ⟨fun h => (nomatch h), fun h => absurd (Option.some.inj h.1 ▸ h.2) ha⟩

theorem ofProfile_eq_ok_iff {settings : Settings} {profile : Profile Float} {page : Markup} :
    ofProfile settings profile = .ok page ↔ profile.entries ≠ [] ∧
      ∃ metric, additive? profile settings.metric = .ok metric ∧
        draw settings metric (.ofEntries settings.metric profile.entries) = page := by
  unfold ofProfile
  cases hentries : profile.entries with
  | nil => simp
  | cons e rest =>
    cases additive? profile settings.metric <;> simp [bind, Except.bind]

section

variable (settings : Settings) (metric : Metric) (tree : CommandTree Float)

theorem plain_names_draw : ∀ n ∈ (draw settings metric tree).names, PlainName n := by
  have hframe : ∀ f, ∀ n ∈ namesAll (drawFrame metric.unit tree.height f), PlainName n := by
    intro f
    unfold drawFrame
    dsimp only
    split <;> simp [namesAll, names, PlainName]
  simp only [draw, names, namesAll, namesAll_append, namesAll_flatMap, List.forall_mem_append, List.forall_mem_cons,
    List.forall_mem_flatMap]
  refine ⟨by simp [PlainName], ⟨by simp [PlainName], by simp [PlainName], fun f _ => hframe f⟩, by simp [PlainName]⟩

theorem tags_draw (title name unit : String) :
    (draw { settings with title } { metric with name, unit } tree).tags = (draw settings metric tree).tags := by
  have hframe : ∀ f, tagsAll (drawFrame unit tree.height f) = tagsAll (drawFrame metric.unit tree.height f) := by
    intro f
    unfold drawFrame
    dsimp only
    split <;> rfl
  simp only [draw, tags, tagsAll, tagsAll_append, tagsAll_flatMap, hframe]

def footer (total : Float) : String :=
  "Metric: " ++ metric.name ++ " (" ++ metric.unit ++ ") | Total: " ++ Decimal.fixedText total 0

theorem read_draw : Markup.read (draw settings metric tree).render.toList =
    some ([], (draw settings metric tree).pieces) := read_render (plain_names_draw settings metric tree)

theorem title_draw : ∃ attributes, (draw settings metric tree).pieces[3]? =
    some ⟨.opening "text".toList attributes, settings.title.toList⟩ := by
  simp only [draw, pieces, front, frontAll, frontAll_append, List.append_nil]
  exact ⟨_, rfl⟩

theorem footer_draw : ∃ attributes, (draw settings metric tree).pieces.reverse[2]? =
    some ⟨.opening "text".toList attributes, (footer metric tree.weight).toList⟩ := by
  let last := Markup.element "text"
    [("x", "10"), ("y", toString (graphHeight tree.height + 45)), ("font-size", "12")]
    [.text (footer metric tree.weight)]
  obtain ⟨lead, added, h⟩ := exists_frontAll
    ((tree.frames settings.width).flatMap (drawFrame metric.unit tree.height)) []
    (frontAll [last] ([], [⟨.closing "svg".toList, []⟩])).2
  simp only [draw, pieces, front, frontAll, frontAll_append, last, footer, List.append_nil] at h ⊢
  rw [h]
  exact ⟨_, by simp [List.reverse_append]; rfl⟩

end

/-- A drawing is one element with all tags in balance, and its brackets and ampersands are those of tags and entities.
Its title and its footer are read as they are meant, and other texts in their place change no tag. -/
theorem texts_stay_texts {settings : Settings} {profile : Profile Float} {page : Markup}
    (h : ofProfile settings profile = .ok page) : ∃ metric pieces, profile.metric? settings.metric = some metric ∧
      Markup.read page.render.toList = some ([], pieces) ∧ NamesEntities page.render.toList ∧
      (∃ attributes inner, Balanced inner ∧
        pieces.map Piece.tag = .opening "svg".toList attributes :: inner ++ [.closing "svg".toList]) ∧
      (∃ attributes, pieces[3]? = some ⟨.opening "text".toList attributes, settings.title.toList⟩) ∧
      (∃ attributes, pieces.reverse[2]? = some ⟨.opening "text".toList attributes,
        (footer metric (CommandTree.ofEntries settings.metric profile.entries).weight).toList⟩) ∧
      ∀ title name unit, ∃ page' pieces',
        ofProfile { settings with title } (profile.rename settings.metric name unit) = .ok page' ∧
        Markup.read page'.render.toList = some ([], pieces') ∧ pieces'.map Piece.tag = pieces.map Piece.tag := by
  obtain ⟨hentries, metric, hmetric, rfl⟩ := ofProfile_eq_ok_iff.mp h
  obtain ⟨hfound, hadditive⟩ := additive?_eq_ok_iff.mp hmetric
  refine ⟨metric, _, hfound, read_draw _ _ _, namesEntities_render (plain_names_draw _ _ _),
    ⟨_, _, balanced_tagsAll _, tags_pieces _⟩, title_draw _ _ _, footer_draw _ _ _, fun title name unit => ?_⟩
  have hrenamed : additive? (profile.rename settings.metric name unit) settings.metric =
      .ok { metric with name, unit } := by
    rw [additive?_eq_ok_iff, Profile.metric?_rename, hfound]
    exact ⟨rfl, hadditive⟩
  refine ⟨_, _, ofProfile_eq_ok_iff.mpr ⟨hentries, _, hrenamed, rfl⟩, read_draw _ _ _, ?_⟩
  rw [tags_pieces, tags_pieces]
  exact tags_draw settings metric _ title name unit

def Barbed.settings : Settings := ⟨"</text></svg> &lt;", 800, 2⟩

def Barbed.metric : Metric := ⟨2, "<rect x=\"0\">", "&", .summation⟩

def Barbed.profile : Profile Float := ⟨[.gpuTime, metric], [⟨⟨[0, 1]⟩, .ofList [(2, .exact 3)]⟩]⟩

theorem barbed_texts : ∃ page, ofProfile Barbed.settings Barbed.profile = .ok page ∧
    ∃ pieces, Markup.read page.render.toList = some ([], pieces) ∧ NamesEntities page.render.toList ∧
      (∃ attributes, pieces[3]? = some ⟨.opening "text".toList attributes, "</text></svg> &lt;".toList⟩) ∧
      ∃ page' pieces', ofProfile { Barbed.settings with title := "Frame" }
          (Barbed.profile.rename 2 "Reads" "B") = .ok page' ∧
        Markup.read page'.render.toList = some ([], pieces') ∧ pieces'.map Piece.tag = pieces.map Piece.tag := by
  have h : ofProfile Barbed.settings Barbed.profile =
      .ok (draw Barbed.settings Barbed.metric (.ofEntries 2 Barbed.profile.entries)) := rfl
  obtain ⟨-, pieces, -, hread, hentities, -, htitle, -, hrenamed⟩ := texts_stay_texts h
  exact ⟨_, h, pieces, hread, hentities, htitle, hrenamed "Frame" "Reads" "B"⟩

end Flamegraph

end GpuProfile
