import Kelda.Minion.Policy

/-! The registry of the leader. One goroutine looks for images that are not
built and starts a builder for each of them; the policy may change the table at
any time. -/
namespace Kelda.Registry

open DB Minion

section Images

/-- The name under which an image is built and pushed. -/
def registryImg (registryIP name : String) : String := registryIP ++ ":5000/" ++ name

theorem registryImg_inj {ip name name' : String}
    (h : registryImg ip name = registryImg ip name') : name = name' := by
  rw [registryImg, registryImg] at h
  exact String.append_right_inj _ |>.mp h

/-- The row with the name and the Dockerfile of an image. -/
def getImageHandle (ord : MapOrder) (view : Database) (ref : Image) : Except String Image :=
  match view.select ord .image
    (fun img => img.dockerfile = ref.dockerfile ∧ img.name = ref.name) with
  | [] => .error "no matching images"
  | [img] => .ok img
  | _ => .error "multiple matching images"

/-- The image is written over the row. Without a row the image is dropped. -/
def writeImage (ord : MapOrder) (view : Database) (img : Image) : Except String Database :=
  match getImageHandle ord view img with
  | .ok dbImg => view.commit .image { img with id := dbImg.id }
  | .error _ => .ok view

end Images

section Builders

/-- What a builder does next. -/
inductive Phase where
  /-- Wait for one of the eight slots. -/
  | waiting
  /-- Write that the image is being built. -/
  | entered
  /-- Build the image. -/
  | marked
  /-- Push the image. -/
  | built
  /-- Write the outcome. -/
  | returning
  /-- Give the slot back. -/
  | written
  | done
deriving DecidableEq

/-- A builder, with its own copy of the row. -/
structure Builder where
  img : Image
  phase : Phase

/-- A call of syncImages that has not returned. -/
structure Sync where
  myIP : String
  builders : List Builder

/-- The builders that hold a slot. -/
def Sync.active (sync : Sync) : List Builder :=
  sync.builders.filter (fun b => b.phase ≠ .waiting ∧ b.phase ≠ .done)

/-- The database, the contents behind the tags of Docker, all builds so far, each
with its Dockerfile, and the call of syncImages. -/
structure State (Content : Type) where
  view : Database
  tags : StringMap Content
  builds : List (String × Content)
  sync : Option Sync

/-- What the next statement of a builder meets. A build has a content, or else it
fails. -/
structure Outcome (Content : Type) where
  ord : MapOrder
  content : Option Content
  pushes : Bool

variable {Content : Type}

def State.init : State Content where
  view := Database.empty
  tags := ∅
  builds := []
  sync := none

/-- The builder in one place has moved on. -/
def State.setBuilder (s : State Content) (sync : Sync) (i : Nat) (b : Builder) : State Content :=
  { s with sync := some { sync with builders := sync.builders.set i b } }

/-- A builder that unsets the building status. -/
def Builder.fail (b : Builder) : Builder := ⟨{ b.img with status := "" }, .returning⟩

/-- A builder whose image has been pushed. -/
def Builder.succeed (b : Builder) (repoDigest : String) : Builder :=
  ⟨{ b.img with repoDigest := repoDigest, status := built }, .returning⟩

/-- The next statement of the builder in one place. -/
def State.advance (digest : Content → String) (s : State Content) (sync : Sync) (i : Nat)
    (b : Builder) (out : Outcome Content) : Except String (State Content) :=
  match b.phase with
  | .waiting =>
    if sync.active.length < 8 then
      .ok (s.setBuilder sync i ⟨{ b.img with status := building }, .entered⟩)
    else .ok s
  | .entered => do
    let view ← writeImage out.ord s.view b.img
    pure ({ s with view := view }.setBuilder sync i { b with phase := .marked })
  | .marked =>
    match out.content with
    | none => .ok (s.setBuilder sync i b.fail)
    | some content =>
      .ok ({ s with
        tags := s.tags.insert (registryImg sync.myIP b.img.name) content
        builds := s.builds ++ [(b.img.dockerfile, content)] }.setBuilder sync i
          { b with phase := .built })
  | .built =>
    match s.tags.lookup (registryImg sync.myIP b.img.name), out.pushes with
    | some content, true => .ok (s.setBuilder sync i (b.succeed (digest content)))
    | _, _ => .ok (s.setBuilder sync i b.fail)
  | .returning => do
    let view ← writeImage out.ord s.view b.img
    pure ({ s with view := view }.setBuilder sync i { b with phase := .written })
  | .written => .ok (s.setBuilder sync i { b with phase := .done })
  | .done => .ok s

inductive Action (Content : Type) where
  | updateImages (ords : Nat → MapOrder) (bp : Blueprint)
  | syncImages (ord : MapOrder) (myIP : String)
  | advance (i : Nat) (out : Outcome Content)
  | wait

/-- One step of the leader. An action that is not possible does nothing. -/
def step (digest : Content → String) (s : State Content) :
    Action Content → Except String (State Content)
  | .updateImages ords bp => do
    let view ← updateImages ords s.view bp
    pure { s with view := view }
  | .syncImages ord myIP =>
    match s.sync with
    | none =>
      let toBuild := s.view.select ord .image (fun img => img.status ≠ built)
      .ok { s with sync := some ⟨myIP, toBuild.map (fun img => ⟨img, .waiting⟩)⟩ }
    | some _ => .ok s
  | .advance i out =>
    match s.sync with
    | none => .ok s
    | some sync =>
      match sync.builders[i]? with
      | none => .ok s
      | some b => s.advance digest sync i b out
  | .wait =>
    match s.sync with
    | none => .ok s
    | some sync =>
      if sync.builders.all (fun b => b.phase = .done) then .ok { s with sync := none } else .ok s

def run (digest : Content → String) (actions : List (Action Content)) :
    Except String (State Content) :=
  actions.foldlM (step digest) State.init

end Builders

section Writes

variable {view : Database}

/-- A row after an image has been written. -/
def overwritten (img r : Image) : Image :=
  if dbImageKey r = dbImageKey img then { img with id := r.id } else r

theorem dbImageKey_overwritten (img r : Image) : dbImageKey (overwritten img r) = dbImageKey r := by
  rw [overwritten]
  split_ifs with h
  · exact h.symm
  · rfl

theorem name_overwritten (img : Image) : Image.name ∘ overwritten img = Image.name := by
  funext r
  exact congrArg Blueprint.Image.name (dbImageKey_overwritten img r)

/-- The row of the image is found, if there is one. -/
theorem getImageHandle_cases (hKeys : ((view.rows .image).map dbImageKey).Nodup) (ord : MapOrder)
    (img : Image) :
    (∃ r ∈ view.rows .image, dbImageKey r = dbImageKey img ∧ getImageHandle ord view img = .ok r) ∨
      ((∀ r ∈ view.rows .image, dbImageKey r ≠ dbImageKey img) ∧
        ∃ err, getImageHandle ord view img = .error err) := by
  have hMem : ∀ r, r ∈ view.select ord .image
      (fun old => old.dockerfile = img.dockerfile ∧ old.name = img.name) ↔
        r ∈ view.rows .image ∧ dbImageKey r = dbImageKey img := by
    intro r
    rw [Database.mem_select, decide_eq_true_iff, dbImageKey, dbImageKey,
      Blueprint.Image.mk.injEq, and_comm (a := r.name = img.name)]
  have hNodup : (view.select ord .image
      (fun old => old.dockerfile = img.dockerfile ∧ old.name = img.name)).Nodup :=
    ((ord.perm _).nodup_iff.mpr hKeys.of_map).filter _
  rw [getImageHandle]
  generalize view.select ord .image
    (fun old => old.dockerfile = img.dockerfile ∧ old.name = img.name) = found at hMem hNodup ⊢
  match found with
  | [] => exact .inr ⟨fun r hr hKey => List.not_mem_nil ((hMem r).mpr ⟨hr, hKey⟩), _, rfl⟩
  | [r] =>
      have hr := (hMem r).mp (List.mem_singleton_self r)
      exact .inl ⟨r, hr.1, hr.2, rfl⟩
  | r :: r' :: rest =>
      have hr := (hMem r).mp (List.mem_cons_self ..)
      have hr' := (hMem r').mp (List.mem_cons_of_mem _ (List.mem_cons_self ..))
      have hSame := List.inj_on_of_nodup_map hKeys hr.1 hr'.1 (hr.2.trans hr'.2.symm)
      exact absurd (hSame ▸ List.mem_cons_self ..) (List.nodup_cons.mp hNodup).1

theorem writeImage_rows (hKeys : ((view.rows .image).map dbImageKey).Nodup) (ord : MapOrder)
    (img : Image) :
    ∃ view', writeImage ord view img = .ok view' ∧
      view'.rows .image = (view.rows .image).map (overwritten img) := by
  rcases getImageHandle_cases hKeys ord img with ⟨r, hr, hKey, hFound⟩ | ⟨hNone, err, hMissing⟩
  · obtain ⟨view', hCommit, hRows, -, -⟩ :=
      view.commit_spec (r := ({ img with id := r.id } : Image)) hr rfl
    refine ⟨view', ?_, ?_⟩
    · rw [writeImage, hFound]
      exact hCommit
    · rw [hRows, Database.replaceRow]
      apply List.map_congr_left
      intro old hOld
      by_cases hEq : dbImageKey old = dbImageKey img
      · obtain rfl := List.inj_on_of_nodup_map hKeys hOld hr (hEq.trans hKey.symm)
        rw [overwritten, if_pos hEq]
        exact if_pos rfl
      · have hID : getID .image old ≠ r.id := fun hID =>
          hEq (view.eq_of_getID_eq hOld hr hID ▸ hKey)
        rw [overwritten, if_neg hEq]
        exact if_neg hID
  · refine ⟨view, ?_, ?_⟩
    · rw [writeImage, hMissing]
    · conv_lhs => rw [← List.map_id (view.rows .image)]
      apply List.map_congr_left
      intro old hOld
      exact (if_neg (hNone old hOld)).symm

end Writes

section Soundness

variable {Content : Type} {digest : Content → String} {s : State Content} {sync : Sync} {i : Nat}
  {b : Builder}

/-- The digest is that of a build of the Dockerfile. -/
def BuiltFrom (digest : Content → String) (builds : List (String × Content)) (img : Image) : Prop :=
  ∃ content, (img.dockerfile, content) ∈ builds ∧ img.repoDigest = digest content

/-- The row of the builder may have the building status. -/
def Phase.marks (phase : Phase) : Prop := phase = .marked ∨ phase = .built ∨ phase = .returning

/-- What a builder relies on between its statements. -/
def Builder.Sound (digest : Content → String) (s : State Content) (myIP : String) (b : Builder) :
    Prop :=
  match b.phase with
  | .entered => b.img.status = building
  | .built => ∃ content, (b.img.dockerfile, content) ∈ s.builds ∧
      s.tags.lookup (registryImg myIP b.img.name) = some content
  | .returning => b.img.status ≠ building ∧
      (b.img.status = built → BuiltFrom digest s.builds b.img)
  | _ => True

structure Sound (digest : Content → String) (s : State Content) : Prop where
  names : ((s.view.rows .image).map Image.name).Nodup
  built : ∀ r ∈ s.view.rows .image, r.status = built → BuiltFrom digest s.builds r
  building : ∀ r ∈ s.view.rows .image, r.status = building →
    ∃ sync ∈ s.sync, ∃ b ∈ sync.builders, dbImageKey b.img = dbImageKey r ∧ b.phase.marks
  builderNames : ∀ sync ∈ s.sync, (sync.builders.map (fun b => b.img.name)).Nodup
  builders : ∀ sync ∈ s.sync, ∀ b ∈ sync.builders, b.Sound digest s sync.myIP

theorem Sound.keys (h : Sound digest s) : ((s.view.rows .image).map dbImageKey).Nodup := by
  have hNames : (((s.view.rows .image).map dbImageKey).map Blueprint.Image.name).Nodup := by
    rw [List.map_map]
    exact h.names
  exact hNames.of_map

/-- A row that is being built is that of the builder, or of one with another name. -/
theorem Sound.building_cases (h : Sound digest s) (hSync : s.sync = some sync)
    (hb : b ∈ sync.builders) {r : Image} (hr : r ∈ s.view.rows .image)
    (hStatus : r.status = DB.building) :
    (∃ x ∈ sync.builders, x.img.name ≠ b.img.name ∧ dbImageKey x.img = dbImageKey r ∧
      x.phase.marks) ∨ (dbImageKey b.img = dbImageKey r ∧ b.phase.marks) := by
  obtain ⟨sync', hSync', x, hx, hKey, hMarks⟩ := h.building r hr hStatus
  obtain rfl : sync = sync' := Option.some.inj (hSync.symm.trans hSync')
  by_cases hName : x.img.name = b.img.name
  · obtain rfl := List.inj_on_of_nodup_map (h.builderNames sync hSync) hx hb hName
    exact .inr ⟨hKey, hMarks⟩
  · exact .inl ⟨x, hx, hName, hKey, hMarks⟩

section Moves

variable (h : Sound digest s) (hSync : s.sync = some sync) (hb : sync.builders[i]? = some b)

include h hSync hb

/-- One builder moves on to `b'`, and the rest of the state to `s'`. -/
theorem Sound.setBuilder {s' : State Content} {b' : Builder}
    (hKey : dbImageKey b'.img = dbImageKey b.img)
    (hNames : ((s'.view.rows .image).map Image.name).Nodup)
    (hBuilt : ∀ r ∈ s'.view.rows .image, r.status = DB.built → BuiltFrom digest s'.builds r)
    (hBuilding : ∀ r ∈ s'.view.rows .image, r.status = DB.building →
      (∃ x ∈ sync.builders, x.img.name ≠ b.img.name ∧ dbImageKey x.img = dbImageKey r ∧
        x.phase.marks) ∨ (dbImageKey b'.img = dbImageKey r ∧ b'.phase.marks))
    (hOthers : ∀ x ∈ sync.builders, x.img.name ≠ b.img.name → x.Sound digest s' sync.myIP)
    (hOwn : b'.Sound digest s' sync.myIP) : Sound digest (s'.setBuilder sync i b') := by
  have hName : b'.img.name = b.img.name := congrArg Blueprint.Image.name hKey
  have hNodup := h.builderNames sync hSync
  have hMem : ∀ x, x ∈ sync.builders.set i b' ↔
      x = b' ∨ (x ∈ sync.builders ∧ x.img.name ≠ b.img.name) := fun x => Lists.mem_set_iff hNodup hb
  refine ⟨hNames, hBuilt, fun r hr hStatus => ⟨_, rfl, ?_⟩, ?_, ?_⟩
  · rcases hBuilding r hr hStatus with ⟨x, hx, hNe, hx'⟩ | hOwn'
    · exact ⟨x, (hMem x).mpr (.inr ⟨hx, hNe⟩), hx'⟩
    · exact ⟨b', (hMem b').mpr (.inl rfl), hOwn'⟩
  · rintro sync' ⟨⟩
    rw [Lists.map_set_of_eq hb hName]
    exact hNodup
  · rintro sync' ⟨⟩ x hx
    rcases (hMem x).mp hx with rfl | ⟨hx, hNe⟩
    · exact hOwn
    · exact hOthers x hx hNe

/-- A builder moves on without a change to anything else. -/
theorem Sound.move {b' : Builder} (hKey : dbImageKey b'.img = dbImageKey b.img)
    (hMarks : b.phase.marks → b'.phase.marks) (hOwn : b'.Sound digest s sync.myIP) :
    Sound digest (s.setBuilder sync i b') := by
  refine h.setBuilder hSync hb hKey h.names h.built (fun r hr hStatus => ?_)
    (fun x hx _ => h.builders sync hSync x hx) hOwn
  rcases h.building_cases hSync (List.mem_of_getElem? hb) hr hStatus with hOther | ⟨hSame, hOwn'⟩
  · exact .inl hOther
  · exact .inr ⟨hKey.trans hSame, hMarks hOwn'⟩

/-- A builder writes its image. Afterwards its row has the building status exactly
if the image does. -/
theorem Sound.write {phase : Phase} (ord : MapOrder)
    (hBuilt : b.img.status = DB.built → BuiltFrom digest s.builds b.img)
    (hMarks : phase.marks ↔ b.img.status = DB.building)
    (hOwn : ∀ s' : State Content, ({ b with phase := phase } : Builder).Sound digest s' sync.myIP) :
    ∃ view, writeImage ord s.view b.img = .ok view ∧
      Sound digest ({ s with view := view }.setBuilder sync i { b with phase := phase }) := by
  obtain ⟨view, hWrite, hRows⟩ := writeImage_rows h.keys ord b.img
  refine ⟨view, hWrite, h.setBuilder hSync hb rfl ?_ ?_ ?_ ?_ (hOwn _)⟩
  · rw [hRows, List.map_map, name_overwritten]
    exact h.names
  · rw [hRows]
    intro r hr hStatus
    obtain ⟨old, hOld, rfl⟩ := List.mem_map.mp hr
    by_cases hKey : dbImageKey old = dbImageKey b.img
    · rw [overwritten, if_pos hKey] at hStatus ⊢
      exact hBuilt hStatus
    · rw [overwritten, if_neg hKey] at hStatus ⊢
      exact h.built old hOld hStatus
  · rw [hRows]
    intro r hr hStatus
    obtain ⟨old, hOld, rfl⟩ := List.mem_map.mp hr
    rw [dbImageKey_overwritten]
    by_cases hKey : dbImageKey old = dbImageKey b.img
    · rw [overwritten, if_pos hKey] at hStatus
      exact .inr ⟨hKey.symm, hMarks.mpr hStatus⟩
    · rw [overwritten, if_neg hKey] at hStatus
      rcases h.building_cases hSync (List.mem_of_getElem? hb) hOld hStatus with hOther | hSame
      · exact .inl hOther
      · exact absurd hSame.1.symm hKey
  · exact fun x hx _ => h.builders sync hSync x hx

/-- A build changes the tag of its own image only. -/
theorem Sound.build (content : Content) :
    Sound digest ({ s with
      tags := s.tags.insert (registryImg sync.myIP b.img.name) content
      builds := s.builds ++ [(b.img.dockerfile, content)] }.setBuilder sync i
        { b with phase := .built }) := by
  have hMore : ∀ img, BuiltFrom digest s.builds img →
      BuiltFrom digest (s.builds ++ [(b.img.dockerfile, content)]) img := by
    rintro img ⟨c, hc, hDigest⟩
    exact ⟨c, List.mem_append_left _ hc, hDigest⟩
  refine h.setBuilder hSync hb rfl h.names (fun r hr hStatus => hMore r (h.built r hr hStatus))
    (fun r hr hStatus => ?_) (fun x hx hName => ?_) ?_
  · rcases h.building_cases hSync (List.mem_of_getElem? hb) hr hStatus with hOther | ⟨hSame, -⟩
    · exact .inl hOther
    · exact .inr ⟨hSame, .inr (.inl rfl)⟩
  · have hx' := h.builders sync hSync x hx
    rw [Builder.Sound] at hx' ⊢
    split at hx'
    · exact hx'
    · obtain ⟨c, hc, hTag⟩ := hx'
      refine ⟨c, List.mem_append_left _ hc, ?_⟩
      rw [Finmap.lookup_insert_of_ne _ (fun hEq => hName (registryImg_inj hEq))]
      exact hTag
    · exact ⟨hx'.1, fun hStatus => hMore _ (hx'.2 hStatus)⟩
    · trivial
  · exact ⟨content, List.mem_append_right _ (List.mem_singleton_self _), Finmap.lookup_insert _⟩

theorem Sound.fail : Sound digest (s.setBuilder sync i b.fail) := by
  have hBuilding : ("" : String) ≠ DB.building := by decide
  have hBuilt : ("" : String) ≠ DB.built := by decide
  exact h.move hSync hb rfl (fun _ => .inr (.inr rfl))
    ⟨hBuilding, fun hStatus => absurd hStatus hBuilt⟩

theorem Sound.succeed {content : Content} (hContent : (b.img.dockerfile, content) ∈ s.builds) :
    Sound digest (s.setBuilder sync i (b.succeed (digest content))) := by
  have hBuilding : DB.built ≠ DB.building := by decide
  exact h.move hSync hb rfl (fun _ => .inr (.inr rfl))
    ⟨hBuilding, fun _ => ⟨content, hContent, rfl⟩⟩

/-- Every statement of a builder succeeds. -/
theorem Sound.advance (out : Outcome Content) :
    ∃ s', s.advance digest sync i b out = .ok s' ∧ Sound digest s' := by
  have hOwn := h.builders sync hSync b (List.mem_of_getElem? hb)
  rw [Builder.Sound] at hOwn
  rw [State.advance]
  cases hPhase : b.phase with
  | waiting =>
      dsimp only
      split_ifs
      · refine ⟨_, rfl, h.move hSync hb rfl (fun hMarks => ?_) rfl⟩
        simp [Phase.marks, hPhase] at hMarks
      · exact ⟨s, rfl, h⟩
  | entered =>
      simp only [hPhase] at hOwn
      have hNotBuilt : b.img.status ≠ DB.built := by
        rw [hOwn]
        decide
      obtain ⟨view, hWrite, hSound⟩ := h.write hSync hb out.ord
        (fun hStatus => absurd hStatus hNotBuilt)
        (iff_of_true (.inl rfl : Phase.marked.marks) hOwn) (fun _ => trivial)
      refine ⟨_, ?_, hSound⟩
      simp only [hWrite]
      rfl
  | marked =>
      cases out.content with
      | none => exact ⟨_, rfl, h.fail hSync hb⟩
      | some content => exact ⟨_, rfl, h.build hSync hb content⟩
  | built =>
      simp only [hPhase] at hOwn
      obtain ⟨content, hContent, hTag⟩ := hOwn
      simp only [hTag]
      cases out.pushes with
      | true => exact ⟨_, rfl, h.succeed hSync hb hContent⟩
      | false => exact ⟨_, rfl, h.fail hSync hb⟩
  | returning =>
      simp only [hPhase] at hOwn
      have hDone : ¬Phase.written.marks := by simp [Phase.marks]
      obtain ⟨view, hWrite, hSound⟩ := h.write hSync hb out.ord hOwn.2
        (iff_of_false hDone hOwn.1) (fun _ => trivial)
      refine ⟨_, ?_, hSound⟩
      simp only [hWrite]
      rfl
  | written =>
      refine ⟨_, rfl, h.move hSync hb rfl (fun hMarks => ?_) trivial⟩
      simp [Phase.marks, hPhase] at hMarks
  | done => exact ⟨s, rfl, h⟩

end Moves

/-- The images to build have one Dockerfile for each name. -/
def OneDockerfile (bp : Blueprint) : Prop :=
  ∀ c ∈ bp.containers, ∀ c' ∈ bp.containers, c.image.name = c'.image.name →
    c.image.dockerfile ≠ "" → c'.image.dockerfile ≠ "" → c.image.dockerfile = c'.image.dockerfile

theorem queryImages_eq_of_name {bp : Blueprint} (hBp : OneDockerfile bp) {im im' : Blueprint.Image}
    (h : im ∈ queryImages bp) (h' : im' ∈ queryImages bp) (hName : im.name = im'.name) :
    im = im' := by
  obtain ⟨hFile, c, hc, rfl⟩ := mem_queryImages.mp h
  obtain ⟨hFile', c', hc', rfl⟩ := mem_queryImages.mp h'
  have hSame := hBp c hc c' hc' hName hFile hFile'
  cases hIm : c.image
  cases hIm' : c'.image
  simp_all

/-- The policy keeps rows as they are, and new rows are not being built. -/
theorem updateImages_rows {bp : Blueprint} (hBp : OneDockerfile bp) (ords : Nat → MapOrder)
    (view : Database) :
    ∃ view', updateImages ords view bp = .ok view' ∧ ((view'.rows .image).map Image.name).Nodup ∧
      ∀ r ∈ view'.rows .image, r ∈ view.rows .image ∨ r.status = "" := by
  obtain ⟨view', hUpdate, hRec, -⟩ := updateImages_reconciled ords view bp
  have hWanted : ∀ im ∈ (view'.rows .image).map dbImageKey, im ∈ queryImages bp := by
    intro im him
    obtain ⟨r, hr, rfl⟩ := List.mem_map.mp him
    obtain ⟨d, hd, hKey, -⟩ := hRec.origin r hr
    exact hKey ▸ hd
  refine ⟨view', hUpdate, ?_, fun r hr => ?_⟩
  · have hNames := hRec.keys.map_on (f := Blueprint.Image.name) (fun im him im' him' =>
      queryImages_eq_of_name hBp (hWanted im him) (hWanted im' him'))
    rw [List.map_map] at hNames
    exact hNames
  · obtain ⟨d, -, -, ⟨old, hOld, -, rfl⟩ | ⟨-, id, -, rfl⟩⟩ := hRec.origin r hr
    · exact .inl hOld
    · exact .inr rfl

theorem Sound.updateImages (h : Sound digest s) {bp : Blueprint} (hBp : OneDockerfile bp)
    (ords : Nat → MapOrder) :
    ∃ view, updateImages ords s.view bp = .ok view ∧ Sound digest { s with view := view } := by
  obtain ⟨view, hUpdate, hNames, hRows⟩ := updateImages_rows hBp ords s.view
  have hBuilding : ("" : String) ≠ DB.building := by decide
  have hBuilt : ("" : String) ≠ DB.built := by decide
  refine ⟨view, hUpdate, hNames, fun r hr hStatus => ?_, fun r hr hStatus => ?_, h.builderNames,
    h.builders⟩
  · rcases hRows r hr with hOld | hNew
    · exact h.built r hOld hStatus
    · exact absurd (hNew.symm.trans hStatus) hBuilt
  · rcases hRows r hr with hOld | hNew
    · exact h.building r hOld hStatus
    · exact absurd (hNew.symm.trans hStatus) hBuilding

/-- The builders that are started are those of distinct rows. -/
theorem Sound.syncImages (h : Sound digest s) (hSync : s.sync = none) (ord : MapOrder)
    (myIP : String) :
    Sound digest { s with sync := some ⟨myIP, (s.view.select ord .image
      (fun img => img.status ≠ DB.built)).map (fun img => ⟨img, .waiting⟩)⟩ } := by
  refine ⟨h.names, h.built, fun r hr hStatus => ?_, ?_, ?_⟩
  · obtain ⟨sync, hSome, -⟩ := h.building r hr hStatus
    rw [hSync] at hSome
    cases hSome
  · rintro sync ⟨⟩
    rw [List.map_map]
    have hPerm := (ord.perm (s.view.rows .image)).map Image.name
    exact (hPerm.nodup_iff.mpr h.names).sublist (List.filter_sublist.map _)
  · rintro sync ⟨⟩ b hb
    obtain ⟨img, -, rfl⟩ := List.mem_map.mp hb
    trivial

/-- A call returns when all of its builders are done. -/
theorem Sound.wait (h : Sound digest s) (hSync : s.sync = some sync)
    (hDone : ∀ b ∈ sync.builders, b.phase = .done) : Sound digest { s with sync := none } := by
  refine ⟨h.names, h.built, fun r hr hStatus => ?_, ?_, ?_⟩
  · obtain ⟨sync', hSync', b, hb, -, hMarks⟩ := h.building r hr hStatus
    obtain rfl : sync = sync' := Option.some.inj (hSync.symm.trans hSync')
    simp [Phase.marks, hDone b hb] at hMarks
  · rintro sync' ⟨⟩
  · rintro sync' ⟨⟩

/-- The blueprints have one Dockerfile for each image. -/
def Action.Vetted : Action Content → Prop
  | .updateImages _ bp => OneDockerfile bp
  | _ => True

theorem Sound.step (h : Sound digest s) {action : Action Content} (hAction : action.Vetted) :
    ∃ s', step digest s action = .ok s' ∧ Sound digest s' := by
  cases action with
  | updateImages ords bp =>
      obtain ⟨view, hUpdate, hSound⟩ := h.updateImages hAction ords
      refine ⟨_, ?_, hSound⟩
      simp only [Registry.step, hUpdate]
      rfl
  | syncImages ord myIP =>
      cases hSync : s.sync with
      | none => exact ⟨_, by simp only [Registry.step, hSync], h.syncImages hSync ord myIP⟩
      | some sync => exact ⟨s, by simp only [Registry.step, hSync], h⟩
  | advance i out =>
      cases hSync : s.sync with
      | none => exact ⟨s, by simp only [Registry.step, hSync], h⟩
      | some sync =>
          cases hb : sync.builders[i]? with
          | none => exact ⟨s, by simp only [Registry.step, hSync, hb], h⟩
          | some b =>
              obtain ⟨s', hAdvance, hSound⟩ := h.advance hSync hb out
              exact ⟨s', by simp only [Registry.step, hSync, hb, hAdvance], hSound⟩
  | wait =>
      cases hSync : s.sync with
      | none => exact ⟨s, by simp only [Registry.step, hSync], h⟩
      | some sync =>
          by_cases hDone : sync.builders.all (fun b => b.phase = .done)
          · refine ⟨_, by simp only [Registry.step, hSync, if_pos hDone], h.wait hSync ?_⟩
            simpa using hDone
          · exact ⟨s, by simp only [Registry.step, hSync, if_neg hDone], h⟩

theorem Sound.init : Sound digest (State.init : State Content) :=
  ⟨List.nodup_nil, by simp [State.init, Database.empty], by simp [State.init, Database.empty],
    by simp [State.init], by simp [State.init]⟩

theorem Sound.run (h : Sound digest s) {actions : List (Action Content)}
    (hActions : ∀ action ∈ actions, action.Vetted) :
    ∃ s', actions.foldlM (Registry.step digest) s = .ok s' ∧ Sound digest s' := by
  induction actions generalizing s with
  | nil => exact ⟨s, rfl, h⟩
  | cons action actions ih =>
      obtain ⟨mid, hStep, hMid⟩ := h.step (hActions action (List.mem_cons_self ..))
      obtain ⟨s', hRest, hSound⟩ :=
        ih hMid (fun action' hMem => hActions action' (List.mem_cons_of_mem _ hMem))
      refine ⟨s', ?_, hSound⟩
      rw [List.foldlM_cons, hStep]
      exact hRest

/-- Built images are what their Dockerfile says, however the builders, the policy
and the loop interleave. -/
theorem run_images_sound (digest : Content → String) (actions : List (Action Content))
    (hActions : ∀ action ∈ actions, action.Vetted) :
    ∃ s, Registry.run digest actions = .ok s ∧
      (∀ r ∈ s.view.rows .image, r.status = DB.built →
        ∃ content, (r.dockerfile, content) ∈ s.builds ∧ r.repoDigest = digest content) ∧
      ((s.view.rows .image).map (fun r => (r.name, r.dockerfile))).Nodup ∧
      (s.sync = none → ∀ r ∈ s.view.rows .image, r.status ≠ DB.building) := by
  obtain ⟨s, hRun, hSound⟩ := Sound.init.run hActions
  refine ⟨s, hRun, hSound.built, ?_, fun hReturned r hr hStatus => ?_⟩
  · have hNames : (((s.view.rows .image).map (fun r => (r.name, r.dockerfile))).map
        Prod.fst).Nodup := by
      rw [List.map_map]
      exact hSound.names
    exact hNames.of_map
  · obtain ⟨sync, hSync, -⟩ := hSound.building r hr hStatus
    rw [hReturned] at hSync
    cases hSync

/-- A blueprint with one container, built from a Dockerfile. -/
def webBlueprint (dockerfile : String) : Blueprint where
  containers := [{
    id := "1"
    image := ⟨"web", dockerfile⟩
    command := []
    env := ∅
    filepathToContent := ∅
    hostname := "web"
    privileged := false
    volumeMounts := [] }]
  loadBalancers := []
  connections := []
  placements := []
  machines := []

theorem webBlueprint_oneDockerfile (dockerfile : String) :
    OneDockerfile (webBlueprint dockerfile) := by
  intro c hc c' hc' _ _ _
  rw [List.mem_singleton.mp hc, List.mem_singleton.mp hc']

/-- The policy replaces the Dockerfile while the image is being built, and the next
call builds the new one under the same tag. -/
def replacedActions : List (Action String) :=
  let built (content : String) : Action String := .advance 0 ⟨.stored, some content, true⟩
  [.updateImages (fun _ => .stored) (webBlueprint "FROM a"), .syncImages .stored "10.0.0.1",
    built "a", built "a", built "a", .updateImages (fun _ => .stored) (webBlueprint "FROM b"),
    built "a", built "a", built "a", .wait, .syncImages .stored "10.0.0.1",
    built "b", built "b", built "b", built "b", built "b", built "b", .wait]

theorem run_images_sound_replaced :
    ∃ s, Registry.run ("sha256:" ++ ·) replacedActions = .ok s ∧ s.sync.isNone ∧
      (s.view.rows .image).map (fun r => (r.dockerfile, r.repoDigest, r.status)) =
        [("FROM b", "sha256:b", DB.built)] ∧
      ∀ r ∈ s.view.rows .image, r.status = DB.built →
        ∃ content, (r.dockerfile, content) ∈ s.builds ∧ r.repoDigest = "sha256:" ++ content := by
  have hVetted : ∀ action ∈ replacedActions, action.Vetted := by
    simp only [replacedActions, List.forall_mem_cons, Action.Vetted, webBlueprint_oneDockerfile,
      List.not_mem_nil, false_imp_iff, implies_true, and_self]
  have hEval : (Registry.run ("sha256:" ++ ·) replacedActions).map (fun s =>
      (s.sync.isNone, (s.view.rows .image).map (fun r => (r.dockerfile, r.repoDigest, r.status)))) =
        .ok (true, [("FROM b", "sha256:b", DB.built)]) := by decide +kernel
  obtain ⟨s, hRun, hBuilt, -⟩ := run_images_sound ("sha256:" ++ ·) replacedActions hVetted
  rw [hRun, Except.map] at hEval
  obtain ⟨hSync, hRows⟩ := Prod.mk.inj (Except.ok.inj hEval)
  exact ⟨s, hRun, hSync, hRows, hBuilt⟩

end Soundness

end Kelda.Registry
