import Bekaa3D.Txn.Runs
import Bekaa3D.Engagement.Store

/-!
# Engagement.Contract — what a request commits, whatever the others do

* `Request.Effect`: what the commit of a request does to the database.
* `contract`, `runs`: every request commits that, once, or nothing.
* `effect_cases`: a committed request assigns the read state of one of its user's notifications, or changes nothing.
-/

namespace Bekaa3D.Engagement

open Txn
open Identity (Uuid Instant User AccessTokenClaims)
open Api (Conversions)

/-- The database after the read state of a notification is assigned. -/
def Db.assign (db : Db) (n : Notification) (read : Bool) (now : Instant) : Db :=
  write (.setReadState n.id n.userId read) (some (n.assign read now)) db

/-- What the commit of a request does to the database. -/
def Request.Effect (db db' : Db) : Request → Prop
  | .listNotifications _ _ _ _ => db' = db
  | .setNotificationReadState cookie _ notificationId read => ∃ now n, cookie.map AccessTokenClaims.userId = some n.userId ∧
      n.id = notificationId ∧ db.notifications.row n.id = some n ∧ db' = db.assign n read now

variable {ι T : Type} (c : Conversions T) (env : Identity.Env) (A : World store ι → Event store ι → Prop)
  (req : ι → Request)

/-- What a request guarantees. -/
@[reducible] def contract : Logic store ι where
  A := A
  Gr _ _ := True
  gr_refl _ := trivial
  gr_trans _ _ := trivial
  Chk w i _ _ _ := ¬Committed w i
  Cmt w i f := ¬Committed w i ∧ (req i).Effect w.db (f w.db)
  Fin w i a :=
    match a with
    | .ok _ => Committed w i
    | .error _ => ¬Committed w i

variable {c env A req} {i : ι} {w : World store ι}

section Steps

variable {α : Type} {o : Op} {k : Resp o → Handler α}
  {Q : α → List Uuid → (Db → Db) → World store ι → Prop}

/-- A statement that only reads, before anything is written. -/
theorem wp_read (hu : ¬Committed w i) (hn : ∀ r, need o r = []) (hw : ∀ r db, write o r db = db)
    (hk : ∀ w r, ¬Committed w i → (∃ now, r = reply now o w.db) →
      (contract A req).wp i (k r) [] id w Q fun _ _ _ w => ¬Committed w i) :
    (contract A req).wp i (.call o k) [] id w Q fun _ _ _ w => ¬Committed w i := by
  refine Logic.wp_stmt .uncommitted hu (fun _ h => h) fun w free r hu hr _ hu' => ?_
  have hf : write o r ∘ id = id := funext fun db => hw r db
  change (contract A req).wp i (k r) (need o r ++ []) (write o r ∘ id) _ Q _
  rw [hf, hn]
  exact hk _ r hu' hr

theorem wp_currentClaims {cookie : Option AccessTokenClaims} (hu : ¬Committed w i) :
    (contract A req).wp i (currentClaims cookie) [] id w
      (fun claims L f w => L = [] ∧ f = id ∧ ¬Committed w i ∧ cookie = some claims) (fun _ _ _ w => ¬Committed w i) := by
  cases cookie with
  | none => exact hu
  | some claims =>
    refine wp_read hu (fun _ => rfl) (fun _ _ => rfl) fun w r hu _ => ?_
    cases r with
    | none => exact hu
    | some currentEpoch =>
      change (contract A req).wp i (if claims.authEpoch ≠ currentEpoch then _ else _) _ _ _ _ _
      split
      · exact hu
      · exact ⟨rfl, rfl, hu, rfl⟩

theorem wp_currentUser {claims : AccessTokenClaims} (hu : ¬Committed w i) :
    (contract A req).wp i (currentUser claims) [] id w
      (fun user L f w => L = [] ∧ f = id ∧ ¬Committed w i ∧ user.id = claims.userId)
      (fun _ _ _ w => ¬Committed w i) := by
  refine wp_read hu (fun _ => rfl) (fun _ _ => rfl) fun w r hu hr => ?_
  obtain ⟨now, hr⟩ := hr
  cases r with
  | none => exact hu
  | some user =>
    change (contract A req).wp i (if user.canAuthenticate then _ else _) _ _ _ _ _
    split
    · exact ⟨rfl, rfl, hu, w.db.users.row_key _ _ hr.symm⟩
    · exact hu

theorem wp_currentVerifiedUser {claims : AccessTokenClaims} (hu : ¬Committed w i) :
    (contract A req).wp i (currentVerifiedUser claims) [] id w
      (fun user L f w => L = [] ∧ f = id ∧ ¬Committed w i ∧ user.id = claims.userId)
      (fun _ _ _ w => ¬Committed w i) := by
  refine Logic.wp_bind.mpr (Logic.wp_mono (wp_currentUser hu) (fun user L f w h => ?_) fun _ _ _ _ h => h)
  obtain ⟨rfl, rfl, hu, hid⟩ := h
  change (contract A req).wp i (if user.isVerified then _ else _) _ _ _ _ _
  split
  · exact ⟨rfl, rfl, hu, hid⟩
  · exact hu

end Steps

variable (A req i) in
/-- The transaction is about to commit the effect of its request. -/
def Commits (q : Request) (L : List Uuid) (f : Db → Db) (w : World store ι) : Prop :=
  ∃ F, (contract A req).Holds i L F ∧ F w ∧ ∀ w, F w → ¬Committed w i ∧ q.Effect w.db (f w.db)

theorem wp_listNotifications {cookie : Option AccessTokenClaims} {cursor : Option String} {limit : ℕ}
    {read : Option Bool} (hu : ¬Committed w i) :
    (contract A req).wp i (listNotificationsRoute c cookie cursor limit read) [] id w
      (fun _ => Commits A req i (.listNotifications cookie cursor limit read)) (fun _ _ _ w => ¬Committed w i) := by
  unfold listNotificationsRoute
  refine Logic.wp_bind.mpr (Logic.wp_mono (wp_currentClaims hu) (fun claims L f w h => ?_) fun _ _ _ _ h => h)
  obtain ⟨rfl, rfl, hu, -⟩ := h
  refine Logic.wp_bind.mpr (Logic.wp_mono (wp_currentUser hu) (fun user L f w h => ?_) fun _ _ _ _ h => h)
  obtain ⟨rfl, rfl, hu, -⟩ := h
  refine Logic.wp_bind.mpr ?_
  generalize (notifications c).decodeCursor RequestError.refused cursor = decoded
  cases decoded with
  | error e => exact hu
  | ok after =>
    refine Logic.wp_bind.mpr ?_
    generalize (notifications c).bind (RequestError.identity .uncaught) after = bound
    cases bound with
    | error e => exact hu
    | ok after =>
      refine wp_read (o := .listPage user.id (limit + 1) after read) hu (fun _ => rfl) (fun _ _ => rfl) fun w r hu _ => ?_
      exact ⟨fun w => ¬Committed w i, .uncommitted, hu, fun w hu => ⟨hu, rfl⟩⟩

theorem wp_setNotificationReadState {cookie : Option AccessTokenClaims} {csrf : Option String} {notificationId : Uuid}
    {read : Bool} (hu : ¬Committed w i) :
    (contract A req).wp i (setNotificationReadStateRoute env cookie csrf notificationId read) [] id w
      (fun _ => Commits A req i (.setNotificationReadState cookie csrf notificationId read))
      (fun _ _ _ w => ¬Committed w i) := by
  unfold setNotificationReadStateRoute
  refine Logic.wp_bind.mpr (Logic.wp_mono (wp_currentClaims hu) (fun claims L f w h => ?_) fun _ _ _ _ h => h)
  obtain ⟨rfl, rfl, hu, rfl⟩ := h
  unfold requireCsrf
  refine Logic.wp_bind.mpr ?_
  split
  rotate_left
  · exact hu
  · exact hu
  refine Logic.wp_ret.mpr (Logic.wp_bind.mpr
    (Logic.wp_mono (wp_currentVerifiedUser hu) (fun user L f w h => ?_) fun _ _ _ _ h => h))
  obtain ⟨rfl, rfl, hu, hid⟩ := h
  refine Logic.wp_stmt .uncommitted hu (fun _ h => h) fun w free r hu hr _ hu' => ?_
  obtain ⟨now, hr⟩ := hr
  cases r with
  | none => exact hu'
  | some n' =>
    -- the row that the update found stays as it is while it is locked
    obtain ⟨n, hn, rfl⟩ := Option.map_eq_some_iff.mp hr.symm
    rw [Option.filter_eq_some_iff, decide_eq_true_eq] at hn
    obtain ⟨hrow, howner⟩ := hn
    obtain rfl : n.id = notificationId := w.db.notifications.row_key _ _ hrow
    have hlock : (contract A req).Holds i [n.id] fun w => w.db.notifications.row n.id = some n :=
      Logic.Holds.prot (Φ := contract A req) (D := fun db : Db => db.notifications.row n.id = some n)
        (List.mem_singleton.mpr rfl) fun h hx => Eq.trans h hx
    refine ⟨_, Logic.Holds.and .uncommitted hlock, ⟨hu', hrow⟩, fun w hw => ⟨hw.1, now, n, ?_, rfl, hw.2, rfl⟩⟩
    rw [Option.map_some, howner, hid]

/-- **Every request keeps the contract.** -/
theorem runs {mem : Unit} {db : Db} : (contract A req).Run i (handle c env (req i)) [] id ⟨db, mem, []⟩ := by
  have hu : ¬Committed (⟨db, mem, []⟩ : World store ι) i := List.not_mem_nil
  have commits : ∀ {p : Handler Answer}, (contract A req).wp i p [] id ⟨db, mem, []⟩
      (fun _ => Commits A req i (req i)) (fun _ _ _ w => ¬Committed w i) →
      (contract A req).Run i p.transaction [] id ⟨db, mem, []⟩ := by
    intro p hp
    refine Logic.wp_bind.mpr (Logic.wp_mono hp (fun a L f w h => ?_) fun e L f w h w' hw => ?_)
    · obtain ⟨F, hF, hw, hcmt⟩ := h
      refine Logic.wp_commit hF hw hcmt (fun _ _ => trivial) fun w _ w' hw => ?_
      exact hw.committed.mpr (committed_commit.mpr (Or.inr rfl))
    · exact fun hc => h (hw.committed.mp hc)
  refine commits ?_
  cases hq : req i with
  | listNotifications cookie cursor limit read => exact wp_listNotifications hu
  | setNotificationReadState cookie csrf notificationId read => exact wp_setNotificationReadState hu

theorem once : (contract A req).Once := ⟨fun h => h, fun h => h.1⟩

end Bekaa3D.Engagement
