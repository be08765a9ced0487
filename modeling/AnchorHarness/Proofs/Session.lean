import AnchorHarness.Proofs.Fallible
import AnchorHarness.Session
import Mathlib.Data.List.Basic

/-!
# Runs of sessions

What an action does to a session: what comes after an interruption is not done, and what was done
before it stays. Messages that are said one after the other stand on the console in order, up to the
first one that is no markup.
-/

namespace AnchorHarness.SessionM

open Console (Channel Event)

variable {α β : Type}

/-- An interruption is passed on; else the second action goes on where the first one ended. -/
theorem perform_bind (x : SessionM α) (f : α → SessionM β) (s : Session) :
    (x >>= f).perform s =
      match x.perform s with
      | (.ok a, t) => (f a).perform t
      | (.error e, t) => (.error e, t) := by
  change ExceptT.bindCont f (x.perform s).1 (x.perform s).2 = _
  obtain ⟨result, t⟩ := x.perform s
  cases result with
  | ok a => rfl
  | error e => rfl

theorem perform_forM_cons (f : α → SessionM Unit) (x : α) (xs : List α) (s : Session) :
    ((x :: xs).forM f).perform s =
      match (f x).perform s with
      | (.ok _, t) => (xs.forM f).perform t
      | (.error e, t) => (.error e, t) := by
  rw [List.forM_eq_forM, List.forM_cons, perform_bind]
  obtain ⟨result, t⟩ := (f x).perform s
  cases result <;> rfl

/-- An action that is interrupted keeps those behind it from being done. -/
theorem perform_forM_interrupted {f : α → SessionM Unit} {before : List α} {x : α}
    {s t u : Session} {interruption : Interruption} (done : (before.forM f).perform s = (.ok (), t))
    (stopped : (f x).perform t = (.error interruption, u)) (after : List α) :
    ((before ++ x :: after).forM f).perform s = (.error interruption, u) := by
  rw [List.forM_eq_forM] at done ⊢
  rw [List.forM_append, perform_bind, done]
  dsimp only
  rw [← List.forM_eq_forM, perform_forM_cons, stopped]

theorem perform_say (channel : Channel) (markup : String) (s : Session) :
    (say channel markup).perform s =
      match Console.message markup with
      | .ok text => (.ok (), { s with events := s.events ++ [.text channel text] })
      | .error fault => (.error (.markup fault), s) := by
  unfold say
  cases Console.message markup with
  | ok text => rfl
  | error fault => rfl

theorem perform_writeFile (p : Workspace.Path) (content : String) (s : Session) :
    (writeFile p content).perform s =
      match Workspace.writeFile s.files s.directory p content with
      | .ok files => (.ok (), { s with files })
      | .error fault => (.error (.file fault), s) := by
  have steps : (writeFile p content).perform s =
      (orInterrupt .file (Workspace.writeFile s.files s.directory p content) >>= fun files =>
        set { s with files }).perform s := rfl
  rw [steps]
  cases Workspace.writeFile s.files s.directory p content with
  | ok files => rfl
  | error fault => rfl

/-- A file is created, and then a notice of it is given. -/
theorem perform_createFile (channel : Channel) (p : Workspace.Path) (content : String)
    (force : Bool) (s : Session) :
    (createFile channel p content force).perform s =
      match Workspace.createFile s.files s.directory p content force with
      | (files, .error fault) => (.error (.file fault), { s with files })
      | (files, .ok creation) =>
        match Console.message (creation.notice p) with
        | .ok text =>
          (.ok creation, { s with files, events := s.events ++ [.text channel text] })
        | .error fault => (.error (.markup fault), { s with files }) := by
  have steps : (createFile channel p content force).perform s =
      (orInterrupt .file (Workspace.createFile s.files s.directory p content force).2 >>=
        fun creation => say channel (creation.notice p) >>= fun _ => pure creation).perform
          { s with files := (Workspace.createFile s.files s.directory p content force).1 } := rfl
  rw [steps]
  obtain ⟨files, result⟩ := Workspace.createFile s.files s.directory p content force
  cases result with
  | error fault => rfl
  | ok creation =>
    change ((say channel (creation.notice p) >>= fun _ => pure creation).perform
      { s with files }) = _
    rw [perform_bind, perform_say]
    dsimp only
    cases Console.message (creation.notice p) <;> rfl

/-! ### Several messages -/

def told (channel : Channel) (texts : List String) (s : Session) : Session :=
  { s with events := s.events ++ texts.map (.text channel) }

theorem told_nil (channel : Channel) (s : Session) : told channel [] s = s := by
  simp [told]

theorem told_cons (channel : Channel) (text : String) (texts : List String) (s : Session) :
    told channel (text :: texts) s =
      told channel texts { s with events := s.events ++ [.text channel text] } := by
  simp [told]

/-- Messages stand on the console one after the other. -/
theorem perform_forM_say (channel : Channel) (markup : α → String) {xs : List α}
    {texts : List String}
    (shown : List.Forall₂ (fun x text => Console.message (markup x) = .ok text) xs texts)
    (s : Session) :
    (xs.forM fun x => say channel (markup x)).perform s = (.ok (), told channel texts s) := by
  induction shown generalizing s with
  | nil => rw [told_nil]; rfl
  | cons h _ ih => rw [perform_forM_cons, perform_say, h, told_cons]; exact ih _

/-- A message that is no markup interrupts, and those behind it are not said. -/
theorem perform_forM_say_of_fault (channel : Channel) (markup : α → String) {before : List α}
    {texts : List String}
    (shown : List.Forall₂ (fun x text => Console.message (markup x) = .ok text) before texts)
    {x : α} {fault : Console.MarkupFault} (h : Console.message (markup x) = .error fault)
    (after : List α) (s : Session) :
    ((before ++ x :: after).forM fun x => say channel (markup x)).perform s =
      (.error (.markup fault), told channel texts s) := by
  have said := perform_forM_say channel markup shown s
  exact perform_forM_interrupted said (by rw [perform_say, h]) after

theorem told_inj {channel : Channel} {texts others : List String} {s : Session}
    (h : told channel texts s = told channel others s) : texts = others := by
  have same := List.append_cancel_left (congrArg Session.events h)
  exact List.map_injective_iff.mpr (fun _ _ he => (Event.text.inj he).2) same

theorem perform_forM_say_eq_ok (channel : Channel) (markup : α → String) (xs : List α)
    (s t : Session) :
    (xs.forM fun x => say channel (markup x)).perform s = (.ok (), t) ↔
      ∃ texts, List.Forall₂ (fun x text => Console.message (markup x) = .ok text) xs texts ∧
        told channel texts s = t := by
  constructor
  · intro h
    -- One message that is no markup would have ended the run.
    cases hm : xs.mapM fun x => Console.message (markup x) with
    | ok texts =>
      have shown := Fallible.mapM_eq_ok.mp hm
      rw [perform_forM_say channel markup shown, Prod.mk.injEq] at h
      exact ⟨texts, shown, h.2⟩
    | error fault =>
      obtain ⟨before, x, after, rfl, fine, failed⟩ := Fallible.mapM_eq_error.mp hm
      obtain ⟨texts, shown⟩ := Fallible.exists_mapM_eq_ok.mpr fine
      rw [perform_forM_say_of_fault channel markup (Fallible.mapM_eq_ok.mp shown) failed] at h
      cases h
  · rintro ⟨texts, shown, rfl⟩
    exact perform_forM_say channel markup shown s

/-! ### Drawing -/

theorem perform_draw (e : Event) (s : Session) :
    (draw e).perform s =
      match e.fault? with
      | none => (.ok (), { s with events := s.events ++ [e] })
      | some fault => (.error (.markup fault), s) := by
  unfold draw
  cases e.fault? <;> rfl

theorem perform_forM_draw {events : List Event} (drawn : ∀ e ∈ events, e.fault? = none)
    (s : Session) :
    (events.forM draw).perform s = (.ok (), { s with events := s.events ++ events }) := by
  induction events generalizing s with
  | nil => rw [List.append_nil]; rfl
  | cons e events ih =>
    obtain ⟨here, behind⟩ := List.forall_mem_cons.mp drawn
    rw [perform_forM_cons, perform_draw, here]
    dsimp only
    rw [ih behind, List.append_assoc, List.singleton_append]

/-- An event that cannot be drawn interrupts, and it leaves what is in front of it. -/
theorem perform_forM_draw_of_fault {before : List Event} (drawn : ∀ e ∈ before, e.fault? = none)
    {e : Event} {fault : Console.MarkupFault} (h : e.fault? = some fault) (after : List Event)
    (s : Session) :
    ((before ++ e :: after).forM draw).perform s =
      (.error (.markup fault), { s with events := s.events ++ before }) :=
  perform_forM_interrupted (perform_forM_draw drawn s) (by rw [perform_draw, h]) after

end AnchorHarness.SessionM
