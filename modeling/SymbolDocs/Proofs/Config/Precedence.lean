import SymbolDocs.Config.Load
import SymbolDocs.Proofs.Performance

/-! # Whose setting counts

Each setting is looked at on its own (`Config.get`), and what is merged sets it just if one of the
two does, the one above before the one below (`get_merge`). A file that is there either holds
settings or is broken (`loaded_eq_ok_iff`); a broken one sets nothing and is warned about
(`perform_loadOrDefault`). So each setting is the project's if it has one, and otherwise the user's,
whatever the other settings and the other file are (`perform_loadLayers`). -/

namespace SymbolDocs.Config

/-! ### One setting at a time -/

/-- One of the settings. -/
inductive Setting
  | generator
  | extensionBlocks
  | extractor
  | snippets
  | snippetDirectory
  | jobs
deriving DecidableEq, Repr

/-- What a setting may be set to. -/
def Setting.Value : Setting → Type
  | .generator | .extractor => Path
  | .extensionBlocks | .snippets => Bool
  | .snippetDirectory => String
  | .jobs => Nat

/-- What a setting is set to, if it is set. -/
def get (c : Config) : (s : Setting) → Option s.Value
  | .generator => c.generator
  | .extensionBlocks => c.extensionBlocks
  | .extractor => c.extractor
  | .snippets => c.snippets
  | .snippetDirectory => c.snippetDirectory
  | .jobs => c.jobs

/-- There are no more settings than these. -/
theorem eq_of_get {c d : Config} (h : ∀ s, c.get s = d.get s) : c = d := by
  rcases c with ⟨⟩
  rcases d with ⟨⟩
  congr 1
  · exact h .generator
  · exact h .extensionBlocks
  · exact h .extractor
  · exact h .snippets
  · exact h .snippetDirectory
  · exact h .jobs

@[simp] theorem get_default (s : Setting) : ({} : Config).get s = none := by
  cases s <;> rfl

@[simp] theorem get_merge (c d : Config) (s : Setting) :
    (c.merge d).get s = (d.get s).or (c.get s) := by
  cases s <;> exact Option.orElse_eq_or ..

theorem merge_assoc (a b c : Config) : (a.merge b).merge c = a.merge (b.merge c) :=
  eq_of_get fun s => by simp only [get_merge, Option.or_assoc]

theorem default_merge (c : Config) : ({} : Config).merge c = c :=
  eq_of_get fun s => by rw [get_merge, get_default, Option.or_none]

theorem merge_default (c : Config) : c.merge {} = c :=
  eq_of_get fun s => by rw [get_merge, get_default, Option.none_or]

/-! ### One file -/

/-- A file holds settings: it can be read, what is read is a text, and the text spells them. -/
def Holds (t : FileTree) (base : Place) (path : Path) (c : Config) : Prop :=
  ∃ bytes text, t.read base path = .ok bytes ∧ Text.decode? bytes = some text ∧ parse text = .ok c

/-- A file is there and holds no settings. -/
def Broken (t : FileTree) (base : Place) (path : Path) : Prop :=
  t.pathExists base path = true ∧ ∀ c, ¬ Holds t base path c

/-- A file holds settings, and among them this one. -/
def Sets (t : FileTree) (base : Place) (path : Path) (s : Setting) (v : s.Value) : Prop :=
  ∃ c, Holds t base path c ∧ c.get s = some v

/-- The settings that a file holds, or why it holds none. -/
def loaded (t : FileTree) (base : Place) (path : Path) : Except Failure Config :=
  match t.read base path with
  | .error cause => .error { cause := .io ⟨.readConfig path, cause⟩ }
  | .ok bytes =>
    match Text.decode? bytes with
    | none => .error { cause := .io ⟨.readConfig path, .notText⟩ }
    | some text => (parse text).mapError fun fault =>
        { context := ["failed to parse config: " ++ path.text], cause := .toml fault }

/-- What is told about a file that holds no settings. -/
def warning (path : Path) (failure : Failure) : Emission :=
  .event .warn ("Failed to load config from " ++ path.text ++ ": " ++ failure.message)

variable {t : FileTree} {base : Place} {path : Path} {c d : Config}

theorem loaded_eq_ok_iff : loaded t base path = .ok c ↔ Holds t base path c := by
  unfold loaded Holds
  rcases t.read base path with cause | bytes
  · simp
  simp only
  rcases hd : Text.decode? bytes with _ | text
  · simp [hd]
  simp only
  rcases hp : parse text with fault | c'
  · constructor
    · intro h
      cases h
    · rintro ⟨_, _, ⟨⟩, htext, hc⟩
      cases hd.symm.trans htext
      cases hp.symm.trans hc
  · change Except.ok c' = .ok c ↔ _
    simp [hd, hp]

theorem Holds.unique (hc : Holds t base path c) (hd : Holds t base path d) : c = d :=
  Except.ok.inj ((loaded_eq_ok_iff.mpr hc).symm.trans (loaded_eq_ok_iff.mpr hd))

theorem Sets.iff_get (h : Holds t base path c) {s : Setting} {v : s.Value} :
    Sets t base path s v ↔ c.get s = some v :=
  ⟨fun ⟨_, hd, hv⟩ => h.unique hd ▸ hv, fun hv => ⟨c, h, hv⟩⟩

/-- What holds settings is there. -/
theorem Holds.pathExists (h : Holds t base path c) : t.pathExists base path = true := by
  obtain ⟨bytes, -, hread, -⟩ := h
  unfold FileTree.read at hread
  unfold FileTree.pathExists
  rcases hs : t.stat base path with cause | e
  · rw [hs] at hread
    cases hread
  · rfl

variable {host : Host} {w : World}

theorem perform_load (path : Path) (host : Host) (w : World) :
    (load path).perform host w =
      ((loaded w.files host.directory path).mapError Halt.failed, w) := by
  unfold load loaded Act.readText
  rw [Work.perform_bind, Work.perform_bind, Act.perform_files]
  simp only
  rw [Work.perform_bind, Act.perform_here]
  simp only
  rcases w.files.read host.directory path with cause | bytes
  · rfl
  simp only
  rcases Text.decode? bytes with _ | text
  · rfl
  simp only [Work.perform_pure, Work.perform_inside, Work.perform_ofExcept]
  rcases parse text with fault | c <;> rfl

/-- Some events are what is told about a file: one warning if it is broken, and nothing if not. -/
def Tells (t : FileTree) (base : Place) (path : Path) (es : List Emission) : Prop :=
  (Broken t base path → ∃ failure, loaded t base path = .error failure ∧
    es = [warning path failure]) ∧
  (¬ Broken t base path → es = [])

/-- **A file that holds settings is taken as it is**, and any other one as if it were empty. -/
theorem perform_loadOrDefault (path : Path) (host : Host) (w : World) :
    ∃ c es, (loadOrDefault path).perform host w =
        (.ok c, { w with emissions := w.emissions ++ es }) ∧
      (∀ s v, c.get s = some v ↔ Sets w.files host.directory path s v) ∧
      Tells w.files host.directory path es := by
  unfold loadOrDefault
  rw [Work.perform_bind, Act.perform_files]
  simp only
  rw [Work.perform_bind, Act.perform_here]
  simp only
  by_cases hthere : w.files.pathExists host.directory path = true
  · rw [if_pos hthere, Work.perform_tryCatch, perform_load]
    rcases hl : loaded w.files host.directory path with failure | c
    · have hnone : ∀ c, ¬ Holds w.files host.directory path c := fun c hc => by
        rw [loaded_eq_ok_iff.mpr hc] at hl
        cases hl
      refine ⟨{}, [warning path failure], rfl, fun s v => ?_, fun _ => ⟨failure, hl, rfl⟩,
        fun h => absurd ⟨hthere, hnone⟩ h⟩
      rw [get_default]
      exact ⟨nofun, fun ⟨c, hc, _⟩ => absurd hc (hnone c)⟩
    · have hc := loaded_eq_ok_iff.mp hl
      refine ⟨c, [], ?_, fun s v => (Sets.iff_get hc).symm,
        fun h => absurd hc (h.2 c), fun _ => rfl⟩
      rw [List.append_nil]
      rfl
  · rw [if_neg hthere]
    refine ⟨{}, [], by simp, fun s v => ?_, fun h => absurd h.1 hthere, fun _ => rfl⟩
    rw [get_default]
    exact ⟨nofun, fun ⟨c, hc, _⟩ => absurd hc.pathExists hthere⟩

/-! ### Two files -/

/-- The user's settings, if there is a place for them. -/
def userLayer : Option Path → Act Config
  | some path => loadOrDefault path
  | none => return {}

theorem loadLayers_eq (user : Option Path) (project : Path) :
    loadLayers user project = do
      let config ← userLayer user
      return config.merge (← loadOrDefault project) := by
  rcases user with _ | path <;> rfl

theorem perform_userLayer (user : Option Path) (host : Host) (w : World) :
    ∃ c es, (userLayer user).perform host w =
        (.ok c, { w with emissions := w.emissions ++ es }) ∧
      (∀ s v, c.get s = some v ↔
        ∃ path, user = some path ∧ Sets w.files host.directory path s v) ∧
      (user = none → es = []) ∧
      ∀ path, user = some path → Tells w.files host.directory path es := by
  rcases user with _ | path
  · exact ⟨{}, [], by simp [userLayer], by simp, fun _ => rfl, nofun⟩
  · obtain ⟨c, es, hc, hget, htells⟩ := perform_loadOrDefault path host w
    refine ⟨c, es, hc, fun s v => ?_, nofun, fun _ hp => Option.some.inj hp ▸ htells⟩
    rw [hget]
    simp

/-- Settings that come from the user's file and from the project's over it, with what is told about
the two files. -/
structure Layered (t : FileTree) (base : Place) (user : Option Path) (project : Path) (c : Config)
    (ofUser ofProject : List Emission) : Prop where
  get : ∀ s v, c.get s = some v ↔ Sets t base project s v ∨
    (∀ v', ¬ Sets t base project s v') ∧ ∃ path, user = some path ∧ Sets t base path s v
  nowhere : user = none → ofUser = []
  ofUser : ∀ path, user = some path → Tells t base path ofUser
  ofProject : Tells t base project ofProject

/-- Both files are read, and the settings are put together. -/
theorem perform_loadLayers (user : Option Path) (project : Path) (host : Host) (w : World) :
    ∃ c ofUser ofProject, (loadLayers user project).perform host w =
        (.ok c, { w with emissions := w.emissions ++ ofUser ++ ofProject }) ∧
      Layered w.files host.directory user project c ofUser ofProject := by
  obtain ⟨a, ofUser, ha, hgeta, hnone, hsome⟩ := perform_userLayer user host w
  obtain ⟨b, ofProject, hb, hgetb, htells⟩ := perform_loadOrDefault project host
    { w with emissions := w.emissions ++ ofUser }
  refine ⟨a.merge b, ofUser, ofProject, ?_, fun s v => ?_, hnone, hsome, htells⟩
  · rw [loadLayers_eq, Work.perform_bind, ha]
    simp only
    rw [Work.perform_bind, hb]
    rfl
  · rw [get_merge, Option.or_eq_some_iff, hgetb, hgeta, Option.eq_none_iff_forall_ne_some]
    refine or_congr_right (and_congr_left' (forall_congr' fun v' => ?_))
    rw [ne_eq, hgetb]

/-- **Each setting is the project's if its file sets it, and otherwise the user's**, on its own and
whatever becomes of the other settings. A file that is broken sets nothing, takes nothing away from
the other one, and is warned about once, with the reason; about a file that is not there, or that
holds settings, nothing is told, and the files are left as they are. Settings can be merged in any
grouping, and settings that are all open change nothing when they are merged, on either side. -/
theorem loadLayers_each (user : Option Path) (project : Path) (host : Host) (w : World) :
    (∃ c ofUser ofProject, (loadLayers user project).perform host w =
        (.ok c, { w with emissions := w.emissions ++ ofUser ++ ofProject }) ∧
      Layered w.files host.directory user project c ofUser ofProject) ∧
    (∀ a b c : Config, (a.merge b).merge c = a.merge (b.merge c)) ∧
    ∀ c : Config, ({} : Config).merge c = c ∧ c.merge {} = c :=
  ⟨perform_loadLayers user project host w, merge_assoc,
    fun c => ⟨default_merge c, merge_default c⟩⟩

/-- A broken file of the project leaves the settings of the user, and one warning. -/
example :
    let files := (FileTree.empty.put [] "user" (.file (Text.encode "build.jobs = 8") false)).put []
      "project" (.file (Text.encode "build.jobs") false)
    let (outcome, w) := (loadLayers (some ⟨"user"⟩) ⟨"project"⟩).perform bareHost { files }
    outcome.toOption = some { jobs := some 8 } ∧ w.emissions.length = 1 := by
  decide +kernel

end SymbolDocs.Config
