import GpuProfile.Proofs.DiskWrites
import GpuProfile.Storage.Output

/-!
Runs on a world. Preparing a path makes directories and no file; a write that is refused leaves the files alone.
-/

namespace GpuProfile

namespace World

section

variable {α β ε : Type}

def Keeps (x : StateM World α) : Prop := ∀ w : World, w.disk.Extends (x w).2.disk

theorem bind_apply (x : StateM World α) (f : α → StateM World β) (w : World) :
    (x >>= f) w = f (x w).1 (x w).2 := rfl

theorem Keeps.bind {x : StateM World α} {f : α → StateM World β} (hx : Keeps x) (hf : ∀ a, Keeps (f a)) :
    Keeps (x >>= f) := fun w => (hx w).trans (hf (x w).1 (x w).2)

theorem keeps_pure (a : α) : Keeps (pure a) := fun w => .refl w.disk

theorem Keeps.ite {c : Prop} [Decidable c] {x y : StateM World α} (hx : Keeps x) (hy : Keeps y) :
    Keeps (if c then x else y) := by
  split
  · exact hx
  · exact hy

theorem Keeps.run_bind {x : ExceptT ε (StateM World) α} {f : α → ExceptT ε (StateM World) β} (hx : Keeps x.run)
    (hf : ∀ a, Keeps (f a).run) : Keeps (x >>= f).run := by
  rw [ExceptT.run_bind]
  refine hx.bind fun
    | .ok a => hf a
    | .error e => keeps_pure _

theorem Keeps.adapt {ε' : Type} {x : ExceptT ε (StateM World) α} (hx : Keeps x.run) (wrap : ε → ε') :
    Keeps (ExceptT.adapt wrap x).run := fun w => hx w

theorem Keeps.lift {x : StateM World α} (hx : Keeps x) :
    Keeps (ExceptT.lift x : ExceptT ε (StateM World) α).run := fun w => hx w

theorem adapt_mk_apply {ε' : Type} (wrap : ε → ε') (x : StateM World (Except ε α)) (w : World) :
    (ExceptT.adapt wrap (ExceptT.mk x)).run w = ((x w).1.mapError wrap, (x w).2) := rfl

theorem run_bind_eq {x : ExceptT ε (StateM World) α} {f : α → ExceptT ε (StateM World) β} (w : World) :
    (x >>= f).run w = match x.run w with
      | (.ok a, w₁) => (f a).run w₁
      | (.error e, w₁) => (.error e, w₁) := by
  rw [ExceptT.run_bind, bind_apply]
  rcases x.run w with ⟨_ | _, _⟩ <;> rfl

end

theorem Keeps.call {τ : Type} {step : Option Trouble → Disk → τ × Disk}
    (h : ∀ trouble (d : Disk), d.Extends (step trouble d).2) : Keeps (World.call step) :=
  fun w => (w.disk.extends_troubles _).trans (h _ _)

theorem keeps_kind? (path : String) : Keeps (Host.kind? path) := Keeps.call fun _ d => .refl d

theorem keeps_readFile (path : String) : Keeps (Host.readFile path) := by
  refine Keeps.call fun trouble d => ?_
  rcases trouble with _ | _ | _ <;> exact .refl d

theorem keeps_print (text : String) : Keeps (Host.print text) := fun w => .refl w.disk

theorem keeps_now : Keeps Host.now := fun w => .refl w.disk

theorem keeps_makeDirectory (path : String) : Keeps (Host.makeDirectory path) := by
  refine Keeps.call fun trouble d => ?_
  split
  · next h => exact Disk.extends_of_addDirectory h
  · exact .refl d
  · exact .refl d

def spent (w : World) : World := { w with disk := { w.disk with troubles := w.disk.troubles.tail } }

theorem spent_of_calm {w : World} (h : w.disk.troubles = []) : w.spent = w := by
  rcases w with ⟨⟨items, troubles⟩, printed, warnings, time⟩
  cases h
  rfl

theorem readFile_of_fine {w : World} (h : w.disk.troubles.head?.join = none) (path : String) :
    Host.readFile (m := StateM World) path w = (w.spent.disk.read path, w.spent) := by
  change World.call _ w = _
  unfold World.call
  rw [h]
  rfl

theorem writeFile_apply (path content : String) (w : World) : Host.writeFile (m := StateM World) path content w =
    ((w.spent.disk.write path content w.disk.troubles.head?.join).1,
      { w with disk := (w.spent.disk.write path content w.disk.troubles.head?.join).2 }) := rfl

theorem writeFile_cases (path content : String) (w : World) : ∃ w', (∃ place,
      Host.writeFile (m := StateM World) path content w = (.ok (), w') ∧
        w.disk.Writes path content.toUTF8 place w'.disk) ∨
    ∃ e, Host.writeFile (m := StateM World) path content w = (.error e, w') ∧ w.disk.Breaks path content w'.disk := by
  have hspent : w.disk.Extends w.spent.disk := w.disk.extends_troubles _
  rw [writeFile_apply]
  obtain ⟨place, hwrite, hplace⟩ | ⟨e, d', hwrite, hbreaks⟩ :=
    w.spent.disk.write_cases path content w.disk.troubles.head?.join
  · rw [hwrite]
    exact ⟨_, .inl ⟨place, rfl, .of_extends hspent hplace⟩⟩
  · rw [hwrite]
    exact ⟨_, .inr ⟨e, rfl, .of_extends hspent hbreaks⟩⟩

end World

namespace Output

open World

theorem keeps_isDirectory (path : String) : Keeps (isDirectory path) :=
  (keeps_kind? path).bind fun _ => keeps_pure _

theorem keeps_ensureDirectory (path : String) : Keeps (ensureDirectory path) :=
  (keeps_makeDirectory path).bind fun
    | .ok () => keeps_pure _
    | .error _ => (keeps_isDirectory path).bind fun
      | true => keeps_pure _
      | false => keeps_pure _

theorem keeps_ensureDirectories (steps : Nat) (path : String) : Keeps (ensureDirectories steps path) := by
  induction steps generalizing path with
  | zero => exact keeps_pure _
  | succ steps ih =>
    unfold ensureDirectories
    refine Keeps.ite (keeps_pure _) ((keeps_makeDirectory path).bind fun made => ?_)
    split
    · exact keeps_pure _
    · split
      · exact keeps_pure _
      -- the directory above first, with one step less
      · next above _ =>
        refine (ih above).bind fun
          | .error e => keeps_pure _
          | .ok () => keeps_ensureDirectory path
    · exact (keeps_isDirectory path).bind fun _ => .ite (keeps_pure _) (keeps_pure _)

theorem keeps_prepare (path : String) : Keeps (prepare path) := by
  unfold prepare
  refine Keeps.ite (keeps_pure _) ((keeps_isDirectory path).bind fun _ => .ite (keeps_pure _) ?_)
  split
  · exact keeps_pure _
  · exact keeps_pure _
  · next above _ _ =>
    refine (keeps_kind? above).bind fun _ => .ite (keeps_pure _) ?_
    exact (keeps_ensureDirectories _ above).bind fun _ => keeps_pure _

theorem write_apply (path content : String) (w : World) : write (m := StateM World) path content w =
    match prepare (m := StateM World) path w with
    | (.error e, w₁) => (.error (.path e), w₁)
    | (.ok (), w₁) => ((Host.writeFile (m := StateM World) path content w₁).1.mapError .file,
        (Host.writeFile (m := StateM World) path content w₁).2) := by
  unfold write
  rw [bind_apply]
  rcases prepare (m := StateM World) path w with ⟨_ | _, w₁⟩ <;> rfl

theorem writes_of_write {path content : String} {w w' : World}
    (h : write (m := StateM World) path content w = (.ok (), w')) :
    ∃ place, w.disk.Writes path content.toUTF8 place w'.disk := by
  have hkept := keeps_prepare path w
  rw [write_apply] at h
  split at h
  · cases h
  · next w₁ hprepared =>
    rw [hprepared] at hkept
    obtain ⟨w₂, ⟨place, hwritten, hplace⟩ | ⟨e, hwritten, -⟩⟩ := writeFile_cases path content w₁
    · rw [hwritten] at h
      cases h
      exact ⟨place, .of_extends hkept hplace⟩
    · rw [hwritten] at h
      cases h

theorem breaks_of_write {path content : String} {w w' : World} {fault : OutputFault}
    (h : write (m := StateM World) path content w = (.error fault, w')) : w.disk.Breaks path content w'.disk := by
  have hkept := keeps_prepare path w
  rw [write_apply] at h
  split at h
  · next hprepared =>
    rw [hprepared] at hkept
    exact (Prod.mk.inj h).2 ▸ .inl hkept
  · next w₁ hprepared =>
    rw [hprepared] at hkept
    obtain ⟨w₂, ⟨place, hwritten, -⟩ | ⟨e, hwritten, hbreaks⟩⟩ := writeFile_cases path content w₁
    · rw [hwritten] at h
      cases h
    · rw [hwritten] at h
      cases h
      exact .of_extends hkept hbreaks

section

variable {name : String} (h : Path.IsName name) {w : World}

section

variable (hfine : w.disk.troubles.head?.join = none)

include h hfine

theorem kind?_of_isName : Host.kind? (m := StateM World) name w =
    ((w.disk.item? [name]).map DiskItem.kind, w.spent) := by
  have hfind : (w.spent.disk.find name).toOption = w.spent.disk.item? [name] := by
    unfold Disk.find
    rw [w.spent.disk.locate_of_isName h]
    simp only [bind, Except.bind]
    cases w.spent.disk.item? [name] <;> rfl
  change World.call _ w = ((w.spent.disk.item? [name]).map DiskItem.kind, w.spent)
  rw [← hfind]
  unfold World.call
  rw [hfine]
  rfl

theorem prepare_of_directory (hd : w.disk.item? [name] = some .directory) :
    prepare (m := StateM World) name w = (.error (.directory name), w.spent) := by
  unfold prepare isDirectory
  rw [if_neg (by simpa using h.ne_empty), bind_assoc, bind_apply, kind?_of_isName h hfine, hd]
  rfl

theorem prepare_of_isName (hfree : w.disk.item? [name] ≠ some .directory) :
    prepare (m := StateM World) name w = (.ok (), w.spent) := by
  unfold prepare isDirectory
  rw [if_neg (by simpa using h.ne_empty), bind_assoc, bind_apply, kind?_of_isName h hfine, h.parent?_eq]
  cases hitem : w.disk.item? [name] with
  | none => rfl
  | some item =>
    cases item with
    | bytes content => rfl
    | directory => exact absurd hitem hfree

end

include h in
theorem write_of_isName (hcalm : w.disk.troubles = []) (content : String)
    (hfree : w.disk.item? [name] ≠ some .directory) : write (m := StateM World) name content w =
      (.ok (), { w with disk := w.disk.insert [name] (.file content) }) := by
  have hfine : w.disk.troubles.head?.join = none := by rw [hcalm]; rfl
  rw [write_apply, prepare_of_isName h hfine hfree, spent_of_calm hcalm]
  dsimp only
  rw [writeFile_apply, spent_of_calm hcalm, hfine, Disk.write_of_target content (w.disk.target_of_isName h hfree)]
  rfl

include h in
theorem write_of_brokenOff {size : ℕ} {cause : SystemFault} {rest : List (Option Trouble)}
    (htroubles : w.disk.troubles = none :: some (.brokenOff size cause) :: rest) (content : String)
    (hfree : w.disk.item? [name] ≠ some .directory) : write (m := StateM World) name content w = (.error (.file cause),
      { w with disk := w.spent.spent.disk.insert [name] (.bytes (content.toUTF8.extract 0 size)) }) := by
  have hfine : w.disk.troubles.head?.join = none := by rw [htroubles]; rfl
  have hbroken : w.spent.disk.troubles.head?.join = some (.brokenOff size cause) := by
    change w.disk.troubles.tail.head?.join = _
    rw [htroubles]
    rfl
  have htarget : w.spent.spent.disk.target name = .ok [name] := Disk.target_of_isName _ h hfree
  rw [write_apply, prepare_of_isName h hfine hfree]
  dsimp only
  rw [writeFile_apply, hbroken, Disk.write_of_brokenOff content size cause htarget]
  rfl

end

end Output

end GpuProfile
