import AnchorHarness.Proofs.Session
import AnchorHarness.Proofs.Workspace.Creation
import AnchorHarness.Proofs.Workspace.Notices

/-!
# Runs that create files

A run creates files one after the other, and goes on behind a call that was interrupted. A file that
no forced call is for keeps its content, and a file that is written holds what the last forced call
for it says. This does not depend on the notices. But the path in a notice is markup, so that a call
can be interrupted after it did its work, or in place of saying that there is nothing to do.
-/

namespace AnchorHarness.Workspace

open Console (Channel)

/-- A file that is to be created, with the channel for a notice of it. -/
structure FileCall where
  channel : Channel
  path : Path
  content : String
  force : Bool

namespace FileCall

/-- Where the file is to be. -/
def target (here : Location) (c : FileCall) : Location := c.path.location here

def perform (c : FileCall) (s : Session) : Except Interruption Creation × Session :=
  (SessionM.createFile c.channel c.path c.content c.force).perform s

/-- What the call makes of the files, and what comes of it. -/
def outcome (c : FileCall) (s : Session) : FileTree × Except FileFault Creation :=
  createFile s.files s.directory c.path c.content c.force

/-- How the call ends with an outcome: a fault interrupts it, and so does a notice that cannot be
shown. -/
def announced (c : FileCall) (s : Session) :
    FileTree × Except FileFault Creation → Except Interruption Creation × Session
  | (files, .error fault) => (.error (.file fault), { s with files })
  | (files, .ok creation) =>
    match Console.message (creation.notice c.path) with
    | .ok text => (.ok creation, { s with files, events := s.events ++ [.text c.channel text] })
    | .error fault => (.error (.markup fault), { s with files })

theorem perform_eq (c : FileCall) (s : Session) : c.perform s = c.announced s (c.outcome s) := by
  rw [perform, SessionM.perform_createFile, outcome]
  obtain ⟨files, result⟩ := createFile s.files s.directory c.path c.content c.force
  cases result <;> rfl

/-- A call whose notice cannot be shown is interrupted when its work is done. -/
theorem announced_of_fault {c : FileCall} {creation : Creation} {fault : Console.MarkupFault}
    (failed : Console.message (creation.notice c.path) = .error fault) (s : Session)
    (files : FileTree) :
    c.announced s (files, .ok creation) = (.error (.markup fault), { s with files }) := by
  simp only [announced, failed]

theorem files_announced (c : FileCall) (s : Session)
    (outcome : FileTree × Except FileFault Creation) :
    (c.announced s outcome).2.files = outcome.1 := by
  obtain ⟨files, fault | creation⟩ := outcome
  · rfl
  · simp only [announced]
    cases Console.message (creation.notice c.path) <;> rfl

theorem directory_announced (c : FileCall) (s : Session)
    (outcome : FileTree × Except FileFault Creation) :
    (c.announced s outcome).2.directory = s.directory := by
  obtain ⟨files, fault | creation⟩ := outcome
  · rfl
  · simp only [announced]
    cases Console.message (creation.notice c.path) <;> rfl

end FileCall

/-- A session after a run of calls, interrupted or not. -/
def after (s : Session) (calls : List FileCall) : Session :=
  calls.foldl (fun s c => (c.perform s).2) s

theorem after_append (s : Session) (before behind : List FileCall) :
    after s (before ++ behind) = after (after s before) behind := List.foldl_append ..

theorem after_concat (s : Session) (calls : List FileCall) (c : FileCall) :
    after s (calls ++ [c]) = (c.perform (after s calls)).2 := after_append s calls [c]

/-- The files are as a file system keeps them, and there is a working directory. -/
structure IsReady (s : Session) : Prop where
  sound : s.files.IsSound
  here : s.files.lookup s.directory = some .directory

/-! ### One call -/

section

variable {s : Session} {c : FileCall}

theorem IsReady.creates (ready : IsReady s) (straight : c.path.IsStraight) :
    Creates s.files (c.target s.directory) c.content c.force (c.outcome s) :=
  createFile_creates ready.sound ready.here straight c.content c.force

theorem files_perform (c : FileCall) (s : Session) :
    (c.perform s).2.files = (c.outcome s).1 := by rw [c.perform_eq, c.files_announced]

theorem directory_perform (c : FileCall) (s : Session) :
    (c.perform s).2.directory = s.directory := by rw [c.perform_eq, c.directory_announced]

theorem IsReady.perform (ready : IsReady s) (straight : c.path.IsStraight) :
    IsReady (c.perform s).2 := by
  have creates := ready.creates straight
  refine ⟨?_, ?_⟩
  · rw [files_perform]
    exact creates.isSound ready.sound
  · rw [files_perform, directory_perform]
    exact creates.directory_kept ready.here

end

/-! ### Runs -/

section

variable {s : Session} {calls : List FileCall} {l : Location}

theorem directory_after (s : Session) (calls : List FileCall) :
    (after s calls).directory = s.directory := by
  induction calls using List.reverseRecOn with
  | nil => rfl
  | append_singleton calls c ih => rw [after_concat, directory_perform, ih]

theorem IsReady.after (ready : IsReady s) (straight : ∀ c ∈ calls, c.path.IsStraight) :
    IsReady (after s calls) := by
  induction calls using List.reverseRecOn with
  | nil => exact ready
  | append_singleton calls c ih =>
    rw [after_concat]
    exact (ih fun d hd => straight d (List.mem_append_left _ hd)).perform (straight c (by simp))

variable (ready : IsReady s) (straight : ∀ c ∈ calls, c.path.IsStraight)

include ready straight

theorem creates_after {before behind : List FileCall} {c : FileCall}
    (split : calls = before ++ c :: behind) :
    Creates (after s before).files (c.target s.directory) c.content c.force
      (c.outcome (after s before)) := by
  subst split
  have front := ready.after fun d hd => straight d (List.mem_append_left _ hd)
  rw [← directory_after s before]
  exact front.creates (straight c (by simp))

/-- What holds of the files and is kept by each call of a run holds after it. -/
theorem after_induction {motive : FileTree → Prop}
    (step : ∀ t c outcome, c ∈ calls →
      Creates t (c.target s.directory) c.content c.force outcome → motive t → motive outcome.1)
    (start : motive s.files) : motive (after s calls).files := by
  induction calls using List.reverseRecOn with
  | nil => exact start
  | append_singleton calls c ih =>
    have creates : Creates (after s calls).files (c.target s.directory) c.content c.force
        (c.outcome (after s calls)) := creates_after ready straight rfl
    rw [after_concat, files_perform]
    refine step _ c _ (by simp) creates (ih ?_ ?_)
    · exact fun d hd => straight d (List.mem_append_left _ hd)
    · exact fun t d outcome hd => step t d outcome (List.mem_append_left _ hd)

/-- A file keeps its content as long as no forced call is for it. -/
theorem file_kept_after {x : String} (there : s.files.lookup l = some (.file x))
    (unforced : ∀ c ∈ calls, c.target s.directory = l → c.force = false) :
    (after s calls).files.lookup l = some (.file x) :=
  after_induction ready straight (motive := fun t => t.lookup l = some (.file x))
    (fun _ c _ hc creates file => creates.file_kept file (unforced c hc)) there

theorem exists_file_after {x : String} (there : s.files.lookup l = some (.file x)) :
    ∃ y, (after s calls).files.lookup l = some (.file y) :=
  after_induction ready straight (motive := fun t => ∃ y, t.lookup l = some (.file y))
    (fun _ _ _ _ creates ⟨_, file⟩ => creates.exists_file file) ⟨x, there⟩

/-- The session between two calls of a run is ready too. -/
theorem ready_within {before behind : List FileCall} (split : calls = before ++ behind) :
    IsReady (after s before) ∧ ∀ c ∈ behind, c.path.IsStraight := by
  subst split
  exact ⟨ready.after fun c hc => straight c (List.mem_append_left _ hc),
    fun c hc => straight c (List.mem_append_right _ hc)⟩

theorem isDecided_after {c : FileCall} (hc : c ∈ calls) (target : c.target s.directory = l) :
    (after s calls).files.IsDecided l := by
  obtain ⟨before, behind, split⟩ := List.append_of_mem hc
  have whole : calls = (before ++ [c]) ++ behind := by simp [split]
  obtain ⟨ready', straight'⟩ := ready_within ready straight whole
  have first : (after s (before ++ [c])).files.IsDecided l := by
    rw [after_concat, files_perform, ← target]
    exact (creates_after ready straight split).isDecided_here
  rw [whole, after_append]
  exact after_induction ready' straight' (motive := fun t => t.IsDecided l)
    (fun _ _ _ _ creates decided => creates.isDecided decided) first

end

/-! ### Where a content comes from -/

/-- The content is that of the last forced call for the location, or of the first call for it if
none is forced. -/
inductive Gives (here : Location) (calls : List FileCall) (l : Location) (x : String) : Prop where
  | lastForced (before behind : List FileCall) (c : FileCall) (split : calls = before ++ c :: behind)
    (target : c.target here = l) (force : c.force = true) (content : c.content = x)
    (last : ∀ d ∈ behind, d.target here = l → d.force = false)
  | first (before behind : List FileCall) (c : FileCall) (split : calls = before ++ c :: behind)
    (target : c.target here = l) (content : c.content = x)
    (unforced : ∀ d ∈ calls, d.target here = l → d.force = false)
    (first : ∀ d ∈ before, d.target here ≠ l)

theorem Gives.concat {here : Location} {calls : List FileCall} {l : Location} {x : String}
    (h : Gives here calls l x) {c : FileCall} (unforced : c.target here = l → c.force = false) :
    Gives here (calls ++ [c]) l x := by
  cases h with
  | lastForced before behind d split target force content last =>
    refine .lastForced before (behind ++ [c]) d (by simp [split]) target force content ?_
    intro e he
    rcases List.mem_append.mp he with he | he
    · exact last e he
    · rw [List.mem_singleton.mp he]
      exact unforced
  | first before behind d split target content none first =>
    refine .first before (behind ++ [c]) d (by simp [split]) target content ?_ first
    intro e he
    rcases List.mem_append.mp he with he | he
    · exact none e he
    · rw [List.mem_singleton.mp he]
      exact unforced

section

variable {s : Session} {calls : List FileCall} {l : Location}
  (ready : IsReady s) (straight : ∀ c ∈ calls, c.path.IsStraight)

include ready straight

/-- A file was there before and is kept, or a call gives it its content. -/
theorem kept_or_gives {x : String} (there : (after s calls).files.lookup l = some (.file x)) :
    (s.files.lookup l = some (.file x) ∧
        ∀ c ∈ calls, c.target s.directory = l → c.force = false) ∨
      Gives s.directory calls l x := by
  induction calls using List.reverseRecOn with
  | nil => exact .inl ⟨there, by simp⟩
  | append_singleton calls c ih =>
    have straight' : ∀ d ∈ calls, d.path.IsStraight :=
      fun d hd => straight d (List.mem_append_left _ hd)
    have creates : Creates (after s calls).files (c.target s.directory) c.content c.force
        (c.outcome (after s calls)) := creates_after ready straight rfl
    rw [after_concat, files_perform] at there
    obtain ⟨before, unforced⟩ | ⟨target, content, allowed, nameable, unblocked⟩ :=
      creates.file_origin (ready.after straight').sound there
    · obtain ⟨stood, none⟩ | gives := ih straight' before
      · refine .inl ⟨stood, fun d hd => ?_⟩
        rcases List.mem_append.mp hd with hd | hd
        · exact none d hd
        · rw [List.mem_singleton.mp hd]
          exact unforced
      · exact .inr (gives.concat unforced)
    · right
      cases force : c.force with
      | true => exact .lastForced calls [] c rfl target force content (by simp)
      | false =>
        -- Nothing stood there, so this is the first call for the location.
        have absent : (after s calls).files.lookup l = none := by simpa [force] using allowed
        have fresh : ∀ d ∈ calls, d.target s.directory ≠ l := by
          intro d hd same
          obtain stood | blocked | unnameable := isDecided_after ready straight' hd same
          · exact stood absent
          · exact unblocked blocked
          · exact unnameable nameable
        refine .first calls [] c rfl target content (fun d hd same => ?_) fresh
        rcases List.mem_append.mp hd with hd | hd
        · exact absurd same (fresh d hd)
        · rw [List.mem_singleton.mp hd, force]

/-- A file that a call writes ends with the content of the last forced call for it, or of the first
call for it if none is forced. -/
theorem gives_of_written {before behind : List FileCall} {c : FileCall}
    (split : calls = before ++ c :: behind) (target : c.target s.directory = l)
    {creation : Creation} (done : (c.outcome (after s before)).2 = .ok creation)
    (written : creation.isWritten = true) :
    ∃ x, (after s calls).files.lookup l = some (.file x) ∧ Gives s.directory calls l x := by
  have whole : calls = (before ++ [c]) ++ behind := by simp [split]
  have creates := creates_after ready straight split
  rw [target] at creates
  obtain ⟨here, allowed⟩ := creates.of_written done written
  have now : (after s (before ++ [c])).files.lookup l = some (.file c.content) := by
    rw [after_concat, files_perform, here]
  obtain ⟨ready', straight'⟩ := ready_within ready straight whole
  obtain ⟨x, hx⟩ := exists_file_after ready' straight' now
  rw [← after_append, ← whole] at hx
  refine ⟨x, hx, ?_⟩
  obtain ⟨stood, unforced⟩ | gives := kept_or_gives ready straight hx
  · -- What stood there would have been kept by this call.
    exfalso
    have still : (after s before).files.lookup l = some (.file x) :=
      file_kept_after ready (fun d hd => straight d (by simp [split, hd])) stood
        fun d hd => unforced d (by simp [split, hd])
    obtain absent | force := allowed
    · rw [still] at absent
      cases absent
    · rw [unforced c (by simp [split]) target] at force
      cases force
  · exact gives

end

/-! ### The whole -/

/-- At every point of a run a call keeps what is there, writes its file and the directories that are
missing above it, or is refused. Its notice can interrupt it after that, but not without a closing
tag in the path. A file keeps its content as long as no forced call is for it, and a file that was
written holds the content of the last forced call for it, or of the first one if none is forced. -/
theorem creations_settled (s : Session) (calls : List FileCall) (ready : IsReady s)
    (straight : ∀ c ∈ calls, c.path.IsStraight) :
    (∀ before c behind, calls = before ++ c :: behind →
      Creates (after s before).files (c.target s.directory) c.content c.force
          (c.outcome (after s before)) ∧
        c.perform (after s before) = c.announced (after s before) (c.outcome (after s before))) ∧
    (∀ c ∈ calls, ∀ creation : Creation,
      (¬['[', '/'] <:+: c.path.text.toList →
        ∃ text, Console.message (creation.notice c.path) = .ok text) ∧
      (Console.ClosesUnopened c.path.text.toList →
        ∃ fault, Console.message (creation.notice c.path) = .error fault)) ∧
    (∀ before behind l x, calls = before ++ behind →
      (after s before).files.lookup l = some (.file x) →
      (∀ c ∈ behind, c.target s.directory = l → c.force = false) →
      (after s calls).files.lookup l = some (.file x)) ∧
    ∀ before c behind creation, calls = before ++ c :: behind →
      (c.outcome (after s before)).2 = .ok creation → creation.isWritten = true →
      ∃ x, (after s calls).files.lookup (c.target s.directory) = some (.file x) ∧
        Gives s.directory calls (c.target s.directory) x := by
  refine ⟨?_, ?_, ?_, ?_⟩
  · intro before c behind split
    exact ⟨creates_after ready straight split, c.perform_eq _⟩
  · intro c _ creation
    exact ⟨fun unclosed => exists_message_notice unclosed creation,
      fun unopened => exists_fault_notice unopened creation⟩
  · intro before behind l x split there unforced
    obtain ⟨ready', straight'⟩ := ready_within ready straight split
    rw [split, after_append]
    refine file_kept_after ready' straight' there fun c hc target => ?_
    rw [directory_after] at target
    exact unforced c hc target
  · intro before c behind creation split done written
    exact gives_of_written ready straight split rfl done written

/-! ### A path with a closing tag -/

def tagged : Session where
  files := ⟨[(["a["], .directory), (["a[", "b].rs"], .file "// edited by hand\n")]⟩
  directory := []
  environment := []
  events := []

/-- A call for the file that is there. -/
def generating (force : Bool) : FileCall := ⟨.out, Path.ofText "a[/b].rs", "generated\n", force⟩

theorem isNameable_names : IsNameable ["a[", "b].rs"] := by
  simp [IsNameable]

theorem isReady_tagged : IsReady tagged := by
  have lookup (l : Location) : tagged.files.lookup l =
      if l = [] then some .directory else if ["a["] = l then some .directory
      else if ["a[", "b].rs"] = l then some (.file "// edited by hand\n") else none := rfl
  refine ⟨⟨fun l n filled there => ?_, fun l n there => ?_⟩, rfl⟩
  · rw [lookup, if_neg filled] at there
    split_ifs at there with parent file
    · subst parent
      rfl
    · subst file
      rfl
  · rw [lookup] at there
    split_ifs at there with root parent file
    · subst root
      exact nofun
    · subst parent
      exact isNameable_names.dropLast
    · subst file
      exact isNameable_names

theorem isStraight_generating (force : Bool) : (generating force).path.IsStraight :=
  isStraight_ofText (by decide)

/-- The call without force interrupts the run in place of saying that the file is there, and the
forced one interrupts it when the file is written. -/
theorem creations_settled_tagged :
    ((∃ fault, (generating false).perform tagged = (.error (.markup fault), tagged)) ∧
      (after tagged [generating false]).files.lookup ["a[", "b].rs"] =
        some (.file "// edited by hand\n")) ∧
    (∃ fault, ((generating true).perform tagged).1 = .error (.markup fault)) ∧
      (after tagged [generating false, generating true]).files.lookup ["a[", "b].rs"] =
        some (.file "generated\n") := by
  have kept : (generating false).outcome tagged = (tagged.files, .ok .skipped) := rfl
  have above : makeDirectories tagged.files tagged.directory (generating true).path.parent =
      (tagged.files, .ok ()) :=
    makeDirectories_of_directory isReady_tagged.sound isReady_tagged.here
      (isStraight_generating true).parent (by decide) rfl
  have written : (generating true).outcome tagged =
      (tagged.files.put ["a[", "b].rs"] (.file "generated\n"), .ok .updated) := by
    rw [FileCall.outcome, createFile, above]
    rfl
  have unopened (force : Bool) : Console.ClosesUnopened (generating force).path.text.toList :=
    ⟨['a'], ['b'], ".rs".toList, by cases force <;> decide⟩
  obtain ⟨calls, notices, stays, -⟩ := creations_settled tagged [generating false] isReady_tagged
    (by simp [isStraight_generating])
  obtain ⟨fault, failed⟩ := (notices _ (List.mem_singleton.mpr rfl) .skipped).2 (unopened false)
  have first : (generating false).perform tagged = (.error (.markup fault), tagged) := by
    have ends : (generating false).perform tagged =
        (generating false).announced tagged ((generating false).outcome tagged) :=
      (calls [] (generating false) [] rfl).2
    rw [ends, kept, FileCall.announced_of_fault failed]
  obtain ⟨calls, notices, -, ends⟩ := creations_settled tagged [generating false, generating true]
    isReady_tagged (by simp [isStraight_generating])
  have between : after tagged [generating false] = tagged := congrArg Prod.snd first
  obtain ⟨fault', failed'⟩ := (notices (generating true) (by simp) .updated).2 (unopened true)
  refine ⟨⟨⟨fault, first⟩, ?_⟩, ⟨fault', ?_⟩, ?_⟩
  · exact stays [] [generating false] _ _ rfl rfl (by simp [generating])
  · have last := (calls [generating false] (generating true) [] rfl).2
    rw [between] at last
    rw [last, written, FileCall.announced_of_fault failed']
  · have done : ((generating true).outcome (after tagged [generating false])).2 =
        .ok .updated := by rw [between, written]
    obtain ⟨x, there, gives⟩ :=
      ends [generating false] (generating true) [] .updated rfl done rfl
    have content : ∀ c ∈ [generating false, generating true], c.content = "generated\n" := by
      simp [generating]
    have same : x = "generated\n" := by
      cases gives with
      | lastForced before behind c split target force given last =>
        rw [← given]
        exact content c (by simp [split])
      | first before behind c split target given unforced first =>
        rw [← given]
        exact content c (by simp [split])
    rw [← same]
    exact there

end AnchorHarness.Workspace
