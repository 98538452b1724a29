import GpuProfile.Proofs.ComputableTraces
import GpuProfile.Proofs.DrawnTexts
import GpuProfile.Proofs.EntryOrder
import GpuProfile.Proofs.KeptFiles
import GpuProfile.Tool.Compute

namespace GpuProfile

theorem Report.head?_text (r : Report Float) : r.text.toList.head? = some '{' := by
  unfold Report.text Json.Value.text
  rw [String.toList_ofList]
  change (Json.Value.write .indented 0 (.object (_ :: _))).head? = _
  rw [Json.Value.write]
  rfl

theorem Flamegraph.head?_render {settings : Settings} {profile : Profile Float} {page : Markup}
    (h : ofProfile settings profile = .ok page) : page.render.toList.head? = some '<' := by
  obtain ⟨-, metric, -, rfl⟩ := ofProfile_eq_ok_iff.mp h
  unfold Markup.render
  rw [String.toList_ofList, draw, Markup.write]
  rfl

theorem Flamegraph.draws_gpuTime (settings : Settings) {t : Timeline} {cs : List (Counter Float)} {p : Profile Float}
    (h : Profile.compute t cs = .ok p) {g : Group} (hg : g ∈ t.groups) (hne : g.command.parts ≠ []) :
    ∃ page, ofProfile { settings with metric := 0 } p = .ok page := by
  obtain ⟨hcheck, leaves, hleaves, rfl⟩ := Profile.compute_eq_ok_iff.mp h
  have hcommand : g.command ∈ (leaves.merge (Profile.metricsOf cs)).map (·.command) :=
    (Profile.mem_commands hleaves (checkTraces_eq_ok_iff.mp hcheck).1).mpr ⟨g, hg, hne, List.prefix_refl _⟩
  refine ⟨_, ofProfile_eq_ok_iff.mpr ⟨?_, .gpuTime, rfl, rfl⟩⟩
  exact List.ne_nil_of_mem (List.mem_map.mp hcommand).choose_spec.1

namespace Tool

open World

def computed (o : ComputeOptions) : ExceptT ComputeFault (StateM World) (Profile Float) := do
  let capture ← ExceptT.adapt (.unread o.input) (ExceptT.mk (readCapture o.input))
  let profile ← ExceptT.adapt .uncomputed
    (ExceptT.mk (speak (Profile.computeWarned capture.timeline capture.counters)))
  if (profile.metric? o.metric).isNone then
    throw (.noMetric o.metric profile.metrics.length)
  return profile

def outputs (o : ComputeOptions) : ExceptT ComputeFault (StateM World) (Report Float × Option (String × String)) := do
  let profile ← computed o
  let drawing ← ExceptT.adapt .undrawn (ExceptT.mk (pure (drawing? o profile)))
  if o.summary then
    ExceptT.lift (Host.print (summaryText o profile))
  let time ← ExceptT.lift Host.now
  return (Report.ofProfile profile o.input time, drawing)

theorem computeReport_eq (o : ComputeOptions) : computeReport (m := StateM World) o = do
    let (report, drawing) ← outputs o
    writeOutputs o report drawing
    return report := by
  unfold computeReport outputs computed
  simp only [bind_assoc]
  refine bind_congr fun capture => bind_congr fun profile => ?_
  split <;> split <;> simp only [bind_assoc, pure_bind]

theorem speak_apply {ε τ : Type} (x : Warned ε τ) (w : World) : speak (m := StateM World) x w =
    (x.outcome.1, { w with warnings := w.warnings ++ x.outcome.2 }) := by
  have hwarn : ∀ (warnings : List Warning) (w : World), warnings.forM (m := StateM World) Host.warn w =
      ((), { w with warnings := w.warnings ++ warnings }) := by
    intro warnings
    induction warnings with
    | nil =>
      intro w
      rw [List.append_nil]
      rfl
    | cons warning rest ih =>
      intro w
      change rest.forM (m := StateM World) Host.warn { w with warnings := w.warnings ++ [warning] } = _
      rw [ih, List.append_assoc]
      rfl
  unfold speak
  rcases x.outcome with ⟨result, warnings⟩
  dsimp only
  rw [bind_apply, hwarn]
  rfl

theorem readCapture_apply (path : String) (w : World) : readCapture (m := StateM World) path w =
    match Host.readFile (m := StateM World) path w with
    | (.error e, w₁) => (.error (.file e), w₁)
    | (.ok none, w₁) => (.error (.capture (.json .malformed)), w₁)
    | (.ok (some text), w₁) => ((Capture.ofText text).outcome.1.mapError .capture,
        { w₁ with warnings := w₁.warnings ++ (Capture.ofText text).outcome.2 }) := by
  unfold readCapture
  rw [bind_apply]
  rcases Host.readFile (m := StateM World) path w with ⟨_ | _ | text, w₁⟩
  · rfl
  · rfl
  · dsimp only
    rw [bind_apply, speak_apply]
    rfl

theorem keeps_speak {ε τ : Type} (x : Warned ε τ) : Keeps (speak x) := by
  intro w
  rw [speak_apply]
  exact .refl w.disk

theorem keeps_readCapture (path : String) : Keeps (readCapture path) := by
  intro w
  have hread := keeps_readFile path w
  rw [readCapture_apply]
  rcases hanswer : Host.readFile (m := StateM World) path w with ⟨_ | _ | _, w₁⟩
  all_goals
    rw [hanswer] at hread
    exact hread

theorem keeps_computed (o : ComputeOptions) : Keeps (computed o).run := by
  refine (Keeps.adapt (keeps_readCapture o.input) _).run_bind fun capture => ?_
  have hspoken := keeps_speak (Profile.computeWarned capture.timeline capture.counters)
  refine (Keeps.adapt hspoken _).run_bind fun profile => ?_
  split
  · exact Keeps.run_bind (keeps_pure _) fun _ => keeps_pure _
  · exact keeps_pure _

theorem computed_apply (o : ComputeOptions) (w : World) : (computed o).run w =
    match readCapture (m := StateM World) o.input w with
    | (.error fault, w₁) => (.error (.unread o.input fault), w₁)
    | (.ok capture, w₁) =>
      match speak (m := StateM World) (Profile.computeWarned capture.timeline capture.counters) w₁ with
      | (.error defect, w₂) => (.error (.uncomputed defect), w₂)
      | (.ok profile, w₂) =>
        if (profile.metric? o.metric).isNone then (.error (.noMetric o.metric profile.metrics.length), w₂)
        else (.ok profile, w₂) := by
  unfold computed
  rw [run_bind_eq, adapt_mk_apply]
  rcases readCapture (m := StateM World) o.input w with ⟨_ | capture, w₁⟩
  · rfl
  · dsimp only [Except.mapError]
    rw [run_bind_eq, adapt_mk_apply]
    rcases speak (m := StateM World) (Profile.computeWarned capture.timeline capture.counters) w₁ with
      ⟨_ | profile, w₂⟩
    · rfl
    · dsimp only [Except.mapError]
      split <;> rfl

theorem keeps_outputs (o : ComputeOptions) : Keeps (outputs o).run := by
  refine (keeps_computed o).run_bind fun profile => ?_
  refine (Keeps.adapt (keeps_pure (drawing? o profile)) _).run_bind fun drawing => ?_
  have hstamped : Keeps (ExceptT.lift Host.now >>= fun time => pure (Report.ofProfile profile o.input time, drawing) :
      ExceptT ComputeFault (StateM World) _).run := (Keeps.lift keeps_now).run_bind fun _ => keeps_pure _
  split
  · exact (Keeps.lift (keeps_print _)).run_bind fun _ => hstamped
  · exact hstamped

theorem outputs_apply (o : ComputeOptions) (w : World) : (outputs o).run w = match (computed o).run w with
    | (.error e, w₁) => (.error e, w₁)
    | (.ok profile, w₁) =>
      match drawing? o profile with
      | .error fault => (.error (.undrawn fault), w₁)
      | .ok drawing => (.ok (Report.ofProfile profile o.input w₁.time, drawing),
          if o.summary then { w₁ with printed := w₁.printed ++ summaryText o profile } else w₁) := by
  unfold outputs
  rw [run_bind_eq]
  rcases (computed o).run w with ⟨_ | profile, w₁⟩
  · rfl
  · dsimp only
    rw [run_bind_eq]
    cases hdrawing : drawing? o profile with
    | error fault => rfl
    | ok drawing =>
      by_cases hs : o.summary
      · simp only [hs, if_true]
        rfl
      · simp only [hs]
        rfl

theorem compute_apply (o : ComputeOptions) (w : World) : compute (m := StateM World) o w =
    match (outputs o).run w with
    | (.error e, w₁) => (.error e, w₁)
    | (.ok (report, drawing), w₁) =>
      match (writeOutputs (m := StateM World) o report drawing).run w₁ with
      | (.error e, w₂) => (.error e, w₂)
      | (.ok (), w₂) => (.ok report, w₂) := by
  unfold compute
  rw [computeReport_eq, run_bind_eq]
  rcases (outputs o).run w with ⟨_ | ⟨report, drawing⟩, w₁⟩
  · rfl
  · dsimp only
    rw [run_bind_eq]
    rcases (writeOutputs (m := StateM World) o report drawing).run w₁ with ⟨_ | _, w₂⟩ <;> rfl

theorem writeOutputs_apply (o : ComputeOptions) (report : Report Float) (drawing : Option (String × String))
    (w : World) : (writeOutputs (m := StateM World) o report drawing).run w =
    match Output.write (m := StateM World) o.output report.text w with
    | (.error fault, w₁) => (.error (.reportUnwritten fault), w₁)
    | (.ok (), w₁) =>
      match drawing with
      | none => (.ok (), w₁)
      | some (path, svg) =>
        match Output.write (m := StateM World) path svg w₁ with
        | (.error fault, w₂) => (.error (.drawingUnwritten fault), w₂)
        | (.ok (), w₂) => (.ok (), w₂) := by
  unfold writeOutputs
  rw [run_bind_eq, adapt_mk_apply]
  unfold Output.writeReport
  rcases Output.write (m := StateM World) o.output report.text w with ⟨_ | _, w₁⟩
  · rfl
  · cases drawing with
    | none => rfl
    | some target =>
      dsimp only [Except.mapError]
      rw [adapt_mk_apply]
      rcases Output.write (m := StateM World) target.1 target.2 w₁ with ⟨_ | _, w₂⟩ <;> rfl

variable {o : ComputeOptions} {w w' : World} {report : Report Float} {drawing : Option (String × String)}

theorem outputs_ne_unwritten {e : ComputeFault} (h : (outputs o).run w = (.error e, w')) (fault : OutputFault) :
    e ≠ .reportUnwritten fault ∧ e ≠ .drawingUnwritten fault := by
  rw [outputs_apply] at h
  split at h
  · next hcomputed =>
    cases h
    rw [computed_apply] at hcomputed
    split at hcomputed
    · cases hcomputed
      exact ⟨nofun, nofun⟩
    · split at hcomputed
      · cases hcomputed
        exact ⟨nofun, nofun⟩
      · split at hcomputed
        · cases hcomputed
          exact ⟨nofun, nofun⟩
        · cases hcomputed
  · split at h
    · cases h
      exact ⟨nofun, nofun⟩
    · cases h

theorem outputs_eq_ok (h : (outputs o).run w = (.ok (report, drawing), w')) :
    drawing? o report.profile = .ok drawing ∧ (outputs { o with svg := none }).run w = (.ok (report, none), w') := by
  have hplain : computed { o with svg := none } = computed o := rfl
  rw [outputs_apply] at h ⊢
  rw [hplain]
  split at h
  · cases h
  · next profile w₁ hcomputed =>
    split at h
    · cases h
    · next hdrawing =>
      cases h
      exact ⟨hdrawing, rfl⟩

theorem writeOutputs_eq_ok (h : (writeOutputs (m := StateM World) o report drawing).run w = (.ok (), w')) :
    ∃ place between, w.disk.Writes o.output report.text.toUTF8 place between ∧
      match drawing with
      | none => w'.disk = between
      | some (path, svg) => ∃ place', between.Writes path svg.toUTF8 place' w'.disk := by
  rw [writeOutputs_apply] at h
  split at h
  · cases h
  · next w₁ hreport =>
    obtain ⟨place, hplace⟩ := Output.writes_of_write hreport
    refine ⟨place, w₁.disk, hplace, ?_⟩
    cases drawing with
    | none =>
      cases h
      rfl
    | some target =>
      dsimp only at h ⊢
      split at h
      · cases h
      · next w₂ hsvg =>
        cases h
        exact Output.writes_of_write hsvg

theorem writeOutputs_eq_error {e : ComputeFault}
    (h : (writeOutputs (m := StateM World) o report drawing).run w = (.error e, w')) :
    (∃ fault, e = .reportUnwritten fault ∧ w.disk.Breaks o.output report.text w'.disk) ∨
      ∃ fault path svg place w₁, e = .drawingUnwritten fault ∧ drawing = some (path, svg) ∧
        (writeOutputs (m := StateM World) o report none).run w = (.ok (), w₁) ∧
        w.disk.Writes o.output report.text.toUTF8 place w₁.disk ∧ w₁.disk.Breaks path svg w'.disk := by
  rw [writeOutputs_apply] at h
  split at h
  · next fault w₁ hreport =>
    cases h
    exact .inl ⟨fault, rfl, Output.breaks_of_write hreport⟩
  · next w₁ hreport =>
    obtain ⟨place, hplace⟩ := Output.writes_of_write hreport
    cases drawing with
    | none => cases h
    | some target =>
      dsimp only at h
      split at h
      · next fault w₂ hsvg =>
        cases h
        refine .inr ⟨fault, target.1, target.2, place, w₁, rfl, rfl, ?_, hplace, Output.breaks_of_write hsvg⟩
        rw [writeOutputs_apply, hreport]
      · cases h

theorem drawing?_eq_ok {path : String} {profile : Profile Float} (hsvg : o.svg = some path)
    (h : drawing? o profile = .ok drawing) : ∃ page,
      Flamegraph.ofProfile { o.drawing.getD .standard with metric := o.metric } profile = .ok page ∧
        drawing = some (path, page.render) := by
  unfold drawing? at h
  rw [hsvg] at h
  dsimp only at h
  cases hpage : Flamegraph.ofProfile { o.drawing.getD .standard with metric := o.metric } profile with
  | error fault => rw [hpage] at h; cases h
  | ok page =>
    rw [hpage] at h
    exact ⟨page, rfl, (Except.ok.inj h).symm⟩

theorem computed_of_read {text : String} {capture : Capture Float} {profile : Profile Float}
    (hread : Host.readFile (m := StateM World) o.input w = (.ok (some text), w'))
    (hcapture : (Capture.ofText text).outcome = (.ok capture, []))
    (hprofile : Profile.compute capture.timeline capture.counters = .ok profile)
    (hskipped : Profile.skipped profile.metrics = []) :
    (computed o).run w = (if (profile.metric? o.metric).isNone then .error (.noMetric o.metric profile.metrics.length)
      else .ok profile, w') := by
  have houtcome : (Profile.computeWarned capture.timeline capture.counters).outcome = (.ok profile, []) := by
    unfold Profile.computeWarned
    rw [hprofile]
    simp only [Warned.ofExcept, pure_bind, hskipped]
    rfl
  rw [computed_apply, readCapture_apply, hread]
  dsimp only
  rw [hcapture]
  dsimp only [Except.mapError]
  rw [speak_apply, houtcome]
  dsimp only
  rw [List.append_nil, List.append_nil]
  split <;> rfl

theorem compute_of_writes {path svg : String} {w₁ w₂ w₃ : World} {written : Except OutputFault Unit}
    (houtputs : (outputs o).run w = (.ok (report, some (path, svg)), w₁))
    (hreport : Output.write (m := StateM World) o.output report.text w₁ = (.ok (), w₂))
    (hsvg : Output.write (m := StateM World) path svg w₂ = (written, w₃)) :
    compute (m := StateM World) o w = (written.mapError .drawingUnwritten |>.map fun _ => report, w₃) := by
  rw [compute_apply, houtputs]
  dsimp only
  rw [writeOutputs_apply, hreport]
  dsimp only
  rw [hsvg]
  cases written <;> rfl

theorem compute_of_unwritten {w₁ : World} {fault : OutputFault}
    (houtputs : (outputs o).run w = (.ok (report, drawing), w₁))
    (hreport : Output.write (m := StateM World) o.output report.text w₁ = (.error fault, w')) :
    compute (m := StateM World) o w = (.error (.reportUnwritten fault), w') := by
  rw [compute_apply, houtputs]
  dsimp only
  rw [writeOutputs_apply, hreport]

theorem files_of_compute (h : compute (m := StateM World) o w = (.ok report, w')) :
    (∀ path, o.svg = some path → ∃ page,
      Flamegraph.ofProfile { o.drawing.getD .standard with metric := o.metric } report.profile = .ok page ∧
        w'.disk.read path = .ok (some page.render)) ∧
      ((∀ path, o.svg = some path → w'.disk.locate path ≠ w'.disk.locate o.output) →
        w'.disk.read o.output = .ok (some report.text)) := by
  rw [compute_apply] at h
  split at h
  · cases h
  · next found drawing w₁ houtputs =>
    obtain ⟨hdrawing, -⟩ := outputs_eq_ok houtputs
    split at h
    · cases h
    · next w₂ hwritten =>
      cases h
      obtain ⟨place, between, hreport, hlast⟩ := writeOutputs_eq_ok hwritten
      cases hsvg : o.svg with
      | none =>
        unfold drawing? at hdrawing
        rw [hsvg] at hdrawing
        cases hdrawing
        refine ⟨fun path hpath => (nomatch hpath), fun _ => ?_⟩
        rw [hlast]
        exact hreport.read
      -- the report stands between the two writes; whether it outlives the second one is up to the places
      | some path =>
        obtain ⟨page, hpage, rfl⟩ := drawing?_eq_ok hsvg hdrawing
        obtain ⟨place', hplace'⟩ := hlast
        refine ⟨?_, fun hapart => hreport.read_of_writes hplace' (hapart path rfl)⟩
        rintro _ ⟨rfl⟩
        exact ⟨page, hpage, hplace'.read⟩

def Frame.capture : String :=
  "\x7b\"slices\": [\x7b\"group_id\": 1, \"ts\": 0, \"dur\": 100\x7d], " ++
    "\"groups\": [\x7b\"id\": 1, \"command_index\": [0]\x7d], \"counters\": []\x7d"

def Frame.timeline : Timeline := ⟨[⟨1, 0, 0, 100⟩], [⟨1, ⟨[0]⟩⟩]⟩

def Frame.world : World :=
  ⟨⟨.ofList [(["frames"], .directory), (["trace.json"], .file capture)], []⟩, "", [], "12:00"⟩

def Frame.options (svg : String) : ComputeOptions := { ComputeOptions.standard "trace.json" with svg := some svg }

theorem Frame.isName_input : Path.IsName "trace.json" := ⟨by decide, by decide, rfl, by decide, by decide⟩

theorem Frame.isName_output : Path.IsName "counters.json" := ⟨by decide, by decide, rfl, by decide, by decide⟩

theorem Frame.readFile_input (hfine : w.disk.troubles.head?.join = none)
    (hitem : w.disk.item? ["trace.json"] = some (.file capture)) :
    Host.readFile (m := StateM World) "trace.json" w = (.ok (some capture), w.spent) := by
  have hread : w.spent.disk.read "trace.json" = .ok (some capture) :=
    Disk.read_eq_some_iff.mpr ⟨_, w.spent.disk.locate_of_isName isName_input, Disk.file?_eq_some_iff.mpr hitem⟩
  rw [readFile_of_fine hfine, hread]

theorem Frame.profiled : ∃ profile page, Profile.compute timeline ([] : List (Counter Float)) = .ok profile ∧
    profile.metrics = [.gpuTime, .wallTime] ∧
    Flamegraph.ofProfile { Flamegraph.Settings.standard with metric := 0 } profile = .ok page := by
  have hcomputable : Profile.Computable timeline ([] : List (Counter Float)) :=
    Profile.computable_iff.mpr ⟨rfl, by decide⟩
  obtain ⟨profile, hprofile⟩ := Profile.compute_isOk_iff.mpr hcomputable
  obtain ⟨page, hpage⟩ := Flamegraph.draws_gpuTime .standard hprofile List.mem_cons_self (by decide)
  obtain ⟨-, leaves, -, rfl⟩ := Profile.compute_eq_ok_iff.mp hprofile
  exact ⟨_, page, hprofile, rfl, hpage⟩

theorem Frame.computed_eq {profile : Profile Float} (h : Profile.compute timeline [] = .ok profile)
    (hmetrics : profile.metrics = [.gpuTime, .wallTime])
    (hread : Host.readFile (m := StateM World) o.input w = (.ok (some capture), w')) :
    (computed o).run w = (if (profile.metric? o.metric).isNone then .error (.noMetric o.metric 2)
      else .ok profile, w') := by
  have hcapture : (Capture.ofText capture).outcome = (.ok ⟨timeline, []⟩, []) := by cbv
  have hskipped : Profile.skipped profile.metrics = [] := by
    rw [hmetrics]
    rfl
  have hcount : profile.metrics.length = 2 := congrArg List.length hmetrics
  rw [computed_of_read hread hcapture h hskipped, hcount]

theorem Frame.outputs_eq (svg : String)
    (hread : Host.readFile (m := StateM World) "trace.json" w = (.ok (some capture), w')) :
    ∃ (report : Report Float) (page : Markup),
      (outputs (options svg)).run w = (.ok (report, some (svg, page.render)), w') ∧
        page.render.toList.head? = some '<' := by
  obtain ⟨profile, page, hprofile, hmetrics, hpage⟩ := profiled
  have hmetric : (profile.metric? 0).isNone = false := by
    rw [Profile.metric?, hmetrics]
    rfl
  have hcomputed : (computed (options svg)).run w = (.ok profile, w') := by
    rw [computed_eq (o := options svg) hprofile hmetrics hread]
    change (if (profile.metric? 0).isNone then _ else _, _) = _
    rw [hmetric]
    rfl
  have hdrawing : drawing? (options svg) profile = .ok (some (svg, page.render)) := by
    change (Flamegraph.ofProfile { Flamegraph.Settings.standard with metric := 0 } profile).bind _ = _
    rw [hpage]
    rfl
  refine ⟨Report.ofProfile profile "trace.json" w'.time, page, ?_, Flamegraph.head?_render hpage⟩
  rw [outputs_apply, hcomputed]
  dsimp only
  rw [hdrawing]
  rfl

theorem Frame.read_input : Host.readFile (m := StateM World) "trace.json" world = (.ok (some capture), world) := by
  rw [readFile_input rfl rfl, spent_of_calm rfl]

def Frame.halfway (report : Report Float) : World :=
  { world with disk := world.disk.insert ["counters.json"] (.file report.text) }

theorem Frame.write_report (report : Report Float) :
    Output.write (m := StateM World) "counters.json" report.text world = (.ok (), halfway report) :=
  Output.write_of_isName isName_output rfl report.text nofun

theorem apart_in_two_files : ∃ report w', compute (m := StateM World) (Frame.options "flame.svg") Frame.world =
    (.ok report, w') ∧ w'.disk.read "counters.json" = .ok (some report.text) ∧
      ∃ page, Flamegraph.ofProfile { Flamegraph.Settings.standard with metric := 0 } report.profile = .ok page ∧
        w'.disk.read "flame.svg" = .ok (some page.render) := by
  have hname : Path.IsName "flame.svg" := ⟨by decide, by decide, rfl, by decide, by decide⟩
  obtain ⟨report, page, houtputs, -⟩ := Frame.outputs_eq "flame.svg" Frame.read_input
  have hfree : (Frame.halfway report).disk.item? ["flame.svg"] = none := rfl
  have hrun := compute_of_writes houtputs (Frame.write_report report)
    (Output.write_of_isName hname rfl page.render (by simp [hfree]))
  obtain ⟨hdrawing, hreport⟩ := files_of_compute hrun
  refine ⟨report, _, hrun, hreport ?_, hdrawing _ rfl⟩
  rintro _ ⟨rfl⟩ hsame
  change Disk.locate _ _ = Disk.locate _ "counters.json" at hsame
  rw [Disk.locate_of_isName _ hname, Disk.locate_of_isName _ Frame.isName_output] at hsame
  exact absurd hsame (by decide)

theorem one_file_for_both : checkOptions (m := StateM World) (Frame.options "counters.json") Frame.world =
      (.ok (), Frame.world) ∧
    ∃ report w', compute (m := StateM World) (Frame.options "counters.json") Frame.world = (.ok report, w') ∧
      w'.disk.read "counters.json" ≠ .ok (some report.text) := by
  refine ⟨?_, ?_⟩
  · have hkind : Host.kind? (m := StateM World) (Frame.options "counters.json").input Frame.world =
        (some .file, Frame.world) := Output.kind?_of_isName Frame.isName_input rfl
    unfold checkOptions
    rw [if_neg (by decide), bind_apply, hkind]
    rfl
  · obtain ⟨report, page, houtputs, hdrawn⟩ := Frame.outputs_eq "counters.json" Frame.read_input
    have hfree : (Frame.halfway report).disk.item? ["counters.json"] = some (.file report.text) := rfl
    have hsecond := Output.write_of_isName (w := Frame.halfway report) Frame.isName_output rfl page.render
      (by rw [hfree]; exact nofun)
    refine ⟨report, _, compute_of_writes houtputs (Frame.write_report report) hsecond, fun hread => ?_⟩
    obtain ⟨place, hplace⟩ := Output.writes_of_write hsecond
    rw [hplace.read, Except.ok.injEq, Option.some.injEq] at hread
    rw [hread, Report.head?_text] at hdrawn
    exact absurd hdrawn (by decide)

/-- A computation that fails changes no file before it writes. If the report cannot be written, at most the beginning of
it is there. If the drawing cannot be written, the report is there that is written when none is asked for, and after
that at most the beginning of the drawing. -/
theorem files_of_failure {e : ComputeFault} (h : compute (m := StateM World) o w = (.error e, w')) :
    ((∀ fault, e ≠ .reportUnwritten fault ∧ e ≠ .drawingUnwritten fault) →
      ∀ place, w'.disk.file? place = w.disk.file? place) ∧
    (∀ fault, e = .reportUnwritten fault → ∃ report drawing w₁, (outputs o).run w = (.ok (report, drawing), w₁) ∧
      w.disk.Breaks o.output report.text w'.disk) ∧
    ∀ fault, e = .drawingUnwritten fault → ∃ report place w₁, compute (m := StateM World) { o with svg := none } w =
        (.ok report, w₁) ∧ w.disk.Writes o.output report.text.toUTF8 place w₁.disk ∧ ∃ path page, o.svg = some path ∧
      Flamegraph.ofProfile { o.drawing.getD .standard with metric := o.metric } report.profile = .ok page ∧
        w₁.disk.Breaks path page.render w'.disk := by
  have hkept : w.disk.Extends ((outputs o).run w).2.disk := keeps_outputs o w
  rw [compute_apply] at h
  split at h
  · next failed w₁ houtputs =>
    cases h
    rw [houtputs] at hkept
    have hearly := outputs_ne_unwritten houtputs
    exact ⟨fun _ => hkept.files, fun fault he => absurd he (hearly fault).1,
      fun fault he => absurd he (hearly fault).2⟩
  · next report drawing w₁ houtputs =>
    obtain ⟨hdrawing, hplain⟩ := outputs_eq_ok houtputs
    rw [houtputs] at hkept
    split at h
    · next w₂ hwritten =>
      cases h
      obtain ⟨fault, rfl, hbreaks⟩ | ⟨fault, path, svg, place, w₃, rfl, rfl, hreport, hplace, hbreaks⟩ :=
        writeOutputs_eq_error hwritten
      · exact ⟨fun hother => absurd rfl (hother fault).1,
          fun _ _ => ⟨report, drawing, w₁, houtputs, .of_extends hkept hbreaks⟩, nofun⟩
      · refine ⟨fun hother => absurd rfl (hother fault).2, nofun, fun _ _ => ?_⟩
        have hwithout : (writeOutputs (m := StateM World) { o with svg := none } report none).run w₁ = (.ok (), w₃) :=
          hreport
        refine ⟨report, place, w₃, ?_, .of_extends hkept hplace, ?_⟩
        · rw [compute_apply, hplain]
          dsimp only
          rw [hwithout]
        · cases hsvg : o.svg with
          | none =>
            unfold drawing? at hdrawing
            rw [hsvg] at hdrawing
            cases hdrawing
          | some asked =>
            obtain ⟨page, hpage, htarget⟩ := drawing?_eq_ok hsvg hdrawing
            cases htarget
            exact ⟨path, page, rfl, hpage, hbreaks⟩
    · cases h

theorem Frame.noMetric_eq (svg : String) : compute (m := StateM World) { options svg with metric := 9 } world =
    (.error (.noMetric 9 2), world) := by
  obtain ⟨profile, page, hprofile, hmetrics, -⟩ := profiled
  have hmetric : (profile.metric? 9).isNone = true := by
    rw [Profile.metric?, hmetrics]
    rfl
  have hcomputed : (computed { options svg with metric := 9 }).run world = (.error (.noMetric 9 2), world) := by
    rw [computed_eq (o := { options svg with metric := 9 }) hprofile hmetrics read_input]
    dsimp only
    rw [hmetric]
    rfl
  rw [compute_apply, outputs_apply, hcomputed]

theorem Frame.isName_frames : Path.IsName "frames" := ⟨by decide, by decide, rfl, by decide, by decide⟩

theorem Frame.directory_eq : ∃ report, compute (m := StateM World) (options "frames") world =
    (.error (.drawingUnwritten (.path (.directory "frames"))), halfway report) := by
  obtain ⟨report, page, houtputs, -⟩ := outputs_eq "frames" read_input
  have hrefused : Output.write (m := StateM World) "frames" page.render (halfway report) =
      (.error (.path (.directory "frames")), halfway report) := by
    rw [Output.write_apply, Output.prepare_of_directory isName_frames rfl rfl, spent_of_calm rfl]
  exact ⟨report, compute_of_writes houtputs (write_report report) hrefused⟩

theorem failures_in_frame :
    (∃ w', compute (m := StateM World) { Frame.options "flame.svg" with metric := 9 } Frame.world =
      (.error (.noMetric 9 2), w') ∧ ∀ place, w'.disk.file? place = Frame.world.disk.file? place) ∧
    ∃ report w', compute (m := StateM World) (Frame.options "frames") Frame.world =
        (.error (.drawingUnwritten (.path (.directory "frames"))), w') ∧
      (compute (m := StateM World) (ComputeOptions.standard "trace.json") Frame.world).1 = .ok report ∧
      w'.disk.file? ["counters.json"] = some report.text.toUTF8 := by
  have hnone := Frame.noMetric_eq "flame.svg"
  refine ⟨⟨_, hnone, (files_of_failure hnone).1 fun _ => ⟨nofun, nofun⟩⟩, ?_⟩
  obtain ⟨report, hrun⟩ := Frame.directory_eq
  obtain ⟨written, place, w₁, hplain, hplace, path, page, hpath, -, hbreaks⟩ := (files_of_failure hrun).2.2 _ rfl
  cases hpath
  have hreport : place = ["counters.json"] :=
    Except.ok.inj (hplace.located.symm.trans (Disk.locate_of_isName _ Frame.isName_output))
  subst hreport
  refine ⟨written, _, hrun, congrArg Prod.fst hplain, ?_⟩
  obtain hkept | ⟨size, place, hplace'⟩ := hbreaks
  · rw [hkept.files, hplace.held]
  · have hframes : place = ["frames"] :=
      Except.ok.inj (hplace'.located.symm.trans (Disk.locate_of_isName _ Frame.isName_frames))
    rw [hplace'.others _ (by simp [hframes]), hplace.held]

def Frame.fullWorld : World := { world with disk :=
  ⟨.ofList [(["counters.json"], .file "old"), (["trace.json"], .file capture)],
    [none, none, some (.brokenOff 0 (.other 28 "No space left on device"))]⟩ }

theorem Frame.full_eq : ∃ w', compute (m := StateM World) (options "flame.svg") fullWorld =
    (.error (.reportUnwritten (.file (.other 28 "No space left on device"))), w') ∧
      w'.disk.file? ["counters.json"] = some ByteArray.empty := by
  obtain ⟨report, page, houtputs, -⟩ := outputs_eq "flame.svg" (readFile_input (w := fullWorld) rfl rfl)
  have hold : fullWorld.disk.item? ["counters.json"] = some (.file "old") := rfl
  have hfree : fullWorld.disk.item? ["counters.json"] ≠ some .directory := by
    rw [hold]
    exact nofun
  have hwrite := Output.write_of_brokenOff (w := fullWorld.spent) isName_output rfl report.text hfree
  refine ⟨_, compute_of_unwritten houtputs hwrite, ?_⟩
  change some (report.text.toUTF8.extract 0 0) = _
  simp

theorem report_left_behind :
    (∃ e w', compute (m := StateM World) (Frame.options "frames") Frame.world = (.error e, w') ∧
      Frame.world.disk.file? ["counters.json"] = none ∧ w'.disk.file? ["counters.json"] ≠ none) ∧
    ∃ e w', compute (m := StateM World) (Frame.options "flame.svg") Frame.fullWorld = (.error e, w') ∧
      Frame.fullWorld.disk.file? ["counters.json"] = some "old".toUTF8 ∧
      w'.disk.file? ["counters.json"] = some ByteArray.empty := by
  constructor
  · obtain ⟨report, hrun⟩ := Frame.directory_eq
    have hheld : (Frame.halfway report).disk.file? ["counters.json"] = some report.text.toUTF8 := rfl
    exact ⟨_, _, hrun, rfl, by simp [hheld]⟩
  · obtain ⟨w', hrun, hempty⟩ := Frame.full_eq
    exact ⟨_, _, hrun, rfl, hempty⟩

end Tool

end GpuProfile
