import Bekaa3D.Txn.Alone
import Bekaa3D.Identity.Play
import Bekaa3D.Engagement.Contract

/-!
# Engagement.Isolation — a user's notifications are the user's

* `Asks`: the statements of a request are about its user.
* `Agree`, `Others`: databases that look alike to a user, and that differ in nothing but the user's notifications.
* `serveAll_reach`: the requests of a user, one after another, are a run of the system.
* `ReadHistory`: what the read state of a notification tells under any interleaving.
* `notification_isolation`.
-/

namespace Bekaa3D.Engagement

open Txn
open Identity (Uuid Instant User AccessTokenClaims)
open Api (Conversions)

variable {T : Type} (c : Conversions T) (env : Identity.Env)

/-- Everything is answered at one time. -/
def solo (now : Instant) : Solo store := ⟨fun o db _ => reply now o db, fun _ _ _ _ => ⟨now, rfl⟩⟩

/-- Requests one after another, each at its time: their answers, and the database after them. -/
def serveAll (session : List (Instant × Request)) (db : Db) : List (Except RequestError Answer) × Db :=
  let r := serve (session.map fun x => (solo x.1, handle c env x.2)) db ()
  (r.1, r.2.1)

/-! ## What a user sees -/

/-- The account and the notifications of the user are the same. -/
structure Agree (userId : Uuid) (db db' : Db) : Prop where
  account : db'.users.row userId = db.users.row userId
  own : ∀ id n, n.userId = userId → (db'.notifications.row id = some n ↔ db.notifications.row id = some n)

/-- The notifications of all others are the same. -/
def Others (userId : Uuid) (db db' : Db) : Prop :=
  ∀ id n, n.userId ≠ userId → (db'.notifications.row id = some n ↔ db.notifications.row id = some n)

/-- The user that a statement is about. -/
def Op.userId : Op → Uuid
  | .getAuthEpoch userId => userId
  | .getById userId => userId
  | .listPage userId _ _ _ => userId
  | .setReadState _ userId _ => userId

section Statements

variable {c} {userId : Uuid} {db db' : Db} {o : Op} {now : Instant}

theorem Agree.filter (h : Agree userId db db') (id : Uuid) :
    (db'.notifications.row id).filter (fun n => n.userId = userId) =
      (db.notifications.row id).filter fun n => n.userId = userId := by
  ext n
  simp only [Option.filter_eq_some_iff, decide_eq_true_eq]
  exact and_congr_left fun hn => h.own id n hn

theorem reply_agree (h : Agree userId db db') (ho : o.userId = userId) : reply now o db' = reply now o db := by
  subst ho
  cases o with
  | getAuthEpoch userId => exact congrArg (Option.map User.authEpoch) h.account
  | getById userId => exact h.account
  | listPage userId limit after read =>
    refine Paging.select_congr ?_ ?_ (fun n hp => ?_) limit
    · exact db'.notifications.nodup_rows fun n n' h => congrArg (fun k => (ofLex (OrderDual.ofDual k)).2) h
    · exact db.notifications.nodup_rows fun n n' h => congrArg (fun k => (ofLex (OrderDual.ofDual k)).2) h
    · rw [Table.mem_rows, Table.mem_rows]
      have hn : n.userId = userId := by
        unfold owned at hp
        rw [Bool.and_eq_true, decide_eq_true_eq] at hp
        exact hp.1
      exact h.own n.id n hn
  | setReadState notificationId userId read =>
    exact congrArg (Option.map fun n => n.assign read now) (h.filter notificationId)

/-- A statement writes at most a notification of its user. -/
theorem write_reply (db : Db) (o : Op) (now : Instant) : write o (reply now o db) db = db ∨
    ∃ n read, n.userId = o.userId ∧ db.notifications.row n.id = some n ∧
      write o (reply now o db) db = db.assign n read now := by
  cases o with
  | setReadState notificationId userId read =>
    cases hf : (db.notifications.row notificationId).filter fun n => n.userId = userId with
    | none =>
      refine Or.inl ?_
      simp only [reply, hf, Option.map_none, write]
    | some n =>
      have hn := Option.filter_eq_some_iff.mp hf
      rw [decide_eq_true_eq] at hn
      obtain ⟨hrow, howner⟩ := hn
      have hid : n.id = notificationId := db.notifications.row_key _ _ hrow
      refine Or.inr ⟨n, read, howner, by rw [hid]; exact hrow, ?_⟩
      unfold Db.assign
      simp only [reply, hf, Option.map_some, write, hid]
  | _ => exact Or.inl rfl

theorem assign_row {n n' : Notification} {read : Bool} {id : Uuid} (hn : db.notifications.row n.id = some n) :
    (db.assign n read now).notifications.row id = some n' ↔
      id = n.id ∧ n' = n.assign read now ∨ id ≠ n.id ∧ db.notifications.row id = some n' := by
  change (db.notifications.modify n.id (Notification.withReadAt (n.assign read now).readAt)
    (Notification.withReadAt_id _)).row id = some n' ↔ _
  rw [Table.row_modify]
  by_cases h : id = n.id
  · subst h
    rw [if_pos rfl, hn, Option.map_some, Option.some_inj]
    exact ⟨fun h => Or.inl ⟨rfl, h.symm⟩, fun h => (h.resolve_right fun h => h.1 rfl).2.symm⟩
  · rw [if_neg h]
    exact ⟨fun hr => Or.inr ⟨h, hr⟩, fun hr => (hr.resolve_left fun hr => h hr.1).2⟩

theorem write_agree (h : Agree userId db db') (ho : o.userId = userId) :
    Agree userId (write o (reply now o db) db) (write o (reply now o db) db') := by
  subst ho
  cases o with
  | setReadState notificationId userId read =>
    cases hf : (db.notifications.row notificationId).filter fun n => n.userId = userId with
    | none => simpa only [reply, hf, Option.map_none, write] using h
    | some n =>
      have hn := Option.filter_eq_some_iff.mp hf
      rw [decide_eq_true_eq] at hn
      obtain ⟨hrow, howner⟩ := hn
      obtain rfl : n.id = notificationId := db.notifications.row_key _ _ hrow
      subst howner
      have hrow' := (h.own n.id n rfl).mpr hrow
      have hassign : ∀ db₁ : Db, write (.setReadState n.id n.userId read)
          (reply now (.setReadState n.id n.userId read) db) db₁ = db₁.assign n read now := fun db₁ => by
        unfold Db.assign
        simp only [reply, hf, Option.map_some, write]
      rw [hassign, hassign]
      refine ⟨h.account, fun id n' hn' => ?_⟩
      rw [assign_row hrow, assign_row hrow', h.own id n' hn']
  | _ => exact h

theorem write_others (db : Db) (o : Op) : Others o.userId db (write o (reply now o db) db) := by
  rcases write_reply db o now with h | ⟨n, read, hn, hrow, h⟩
  · rw [h]
    exact fun _ _ _ => Iff.rfl
  · rw [h]
    intro id n' hn'
    rw [assign_row hrow]
    constructor
    · rintro (⟨-, rfl⟩ | ⟨-, hr⟩)
      · exact absurd hn hn'
      · exact hr
    · intro hr
      refine Or.inr ⟨fun hid => ?_, hr⟩
      rw [hid, hrow] at hr
      cases hr
      exact hn' hn

end Statements

/-! ## A request is about its user -/

/-- Every statement of the program is about the user, whatever the replies. -/
def Asks (userId : Uuid) : Handler Answer → Prop
  | .ret _ => True
  | .raise _ => True
  | .call o k => o.userId = userId ∧ ∀ now db, Asks userId (k (reply now o db))
  | .commit k => Asks userId k

section Asks

variable {c env} {userId : Uuid} {p : Handler Answer}

/-- **What a program about a user sees** is the same in databases that look alike to the user. -/
theorem run_agree (hp : Asks userId p) {now : Instant} {committed committed' seen seen' : Db}
    (hc : Agree userId committed committed') (hs : Agree userId seen seen') :
    ((solo now).run p committed' seen' ()).answer = ((solo now).run p committed seen ()).answer ∧
      Agree userId ((solo now).run p committed seen ()).db ((solo now).run p committed' seen' ()).db := by
  induction p generalizing committed committed' seen seen' with
  | ret a => exact ⟨rfl, hc⟩
  | raise e => exact ⟨rfl, hc⟩
  | call o k ih =>
    have hr : reply now o seen' = reply now o seen := reply_agree hs hp.1
    have hw : Agree userId (write o (reply now o seen) seen) (write o (reply now o seen) seen') :=
      write_agree hs hp.1
    have h := ih _ (hp.2 now seen) hc hw
    dsimp only [Solo.run, solo] at h ⊢
    rw [hr]
    exact h
  | commit k ih => exact ih hp hs hs

/-- **What a program about a user touches**: no notification of others. -/
theorem run_others (hp : Asks userId p) {now : Instant} {db committed seen : Db} (hc : Others userId db committed)
    (hs : Others userId db seen) : Others userId db ((solo now).run p committed seen ()).db := by
  induction p generalizing committed seen with
  | ret a => exact hc
  | raise e => exact hc
  | call o k ih =>
    refine ih _ (hp.2 now seen) hc fun id n hn => ?_
    have hw := (show Others o.userId seen (write o (reply now o seen) seen) from write_others seen o) id n
      (by rw [hp.1]; exact hn)
    exact hw.trans (hs id n hn)
  | commit k ih => exact ih hp hs hs

theorem asks_currentClaims {cookie : Option AccessTokenClaims} (hu : ∀ u, cookie.map AccessTokenClaims.userId = some u → u = userId)
    (k : AccessTokenClaims → Handler Answer) (hk : ∀ claims, cookie = some claims → Asks userId (k claims)) :
    Asks userId ((currentClaims cookie).bind k) := by
  cases cookie with
  | none => trivial
  | some claims =>
    refine ⟨hu _ rfl, fun now db => ?_⟩
    cases reply now (.getAuthEpoch claims.userId) db with
    | none => trivial
    | some currentEpoch =>
      change Asks userId (Prog.bind (if claims.authEpoch ≠ currentEpoch then _ else _) k)
      split
      · trivial
      · exact hk claims rfl

theorem asks_currentUser {claims : AccessTokenClaims} (hu : claims.userId = userId) (k : User → Handler Answer)
    (hk : ∀ user : User, user.id = userId → Asks userId (k user)) : Asks userId ((currentUser claims).bind k) := by
  refine ⟨hu, fun now db => ?_⟩
  cases hr : reply now (.getById claims.userId) db with
  | none => trivial
  | some user =>
    change Asks userId (Prog.bind (if user.canAuthenticate then _ else _) k)
    split
    · exact hk user ((db.users.row_key _ _ hr).trans hu)
    · trivial

/-- **A request is about its user.** -/
theorem asks_handle {q : Request} (hu : ∀ u, q.userId = some u → u = userId) : Asks userId (handle c env q) := by
  unfold handle Prog.transaction
  cases q with
  | listNotifications cookie cursor limit read =>
    change Asks userId ((listNotificationsRoute c cookie cursor limit read).bind _)
    unfold listNotificationsRoute
    rw [Prog.bind_eq, Prog.bind_assoc]
    refine asks_currentClaims hu _ fun claims hc => ?_
    rw [Prog.bind_eq, Prog.bind_assoc]
    refine asks_currentUser (hu _ (congrArg (Option.map AccessTokenClaims.userId) hc)) _ fun user huser => ?_
    rw [Prog.bind_eq, Prog.bind_assoc]
    generalize (notifications c).decodeCursor RequestError.refused cursor = decoded
    cases decoded with
    | error e => trivial
    | ok after =>
      change Asks userId (Prog.bind (Prog.bind (Prog.ofExcept ((notifications c).bind _ after)) _) _)
      rw [Prog.bind_assoc]
      generalize (notifications c).bind (RequestError.identity .uncaught) after = bound
      cases bound with
      | error e => trivial
      | ok after => exact ⟨huser, fun _ _ => trivial⟩
  | setNotificationReadState cookie csrf notificationId read =>
    change Asks userId ((setNotificationReadStateRoute env cookie csrf notificationId read).bind _)
    unfold setNotificationReadStateRoute
    rw [Prog.bind_eq, Prog.bind_assoc]
    refine asks_currentClaims hu _ fun claims hc => ?_
    rw [Prog.bind_eq, Prog.bind_assoc]
    unfold requireCsrf
    split
    rotate_left
    · trivial
    · trivial
    change Asks userId (Prog.bind (Prog.bind (currentVerifiedUser claims) _) _)
    unfold currentVerifiedUser
    rw [Prog.bind_assoc, Prog.bind_eq, Prog.bind_assoc]
    refine asks_currentUser (hu _ (congrArg (Option.map AccessTokenClaims.userId) hc)) _ fun user huser => ?_
    split
    swap
    · trivial
    refine ⟨huser, fun now db => ?_⟩
    cases reply now (.setReadState notificationId user.id read) db with
    | none => trivial
    | some n => trivial

end Asks

theorem serveAll_agree {userId : Uuid} {session : List (Instant × Request)} {db db' : Db}
    (hs : ∀ x ∈ session, ∀ u, x.2.userId = some u → u = userId) (h : Agree userId db db') :
    (serveAll c env session db').1 = (serveAll c env session db).1 := by
  unfold serveAll
  dsimp only
  induction session generalizing db db' with
  | nil => rfl
  | cons x session ih =>
    have hasks : Asks userId (handle c env x.2) := asks_handle (hs x (by simp))
    obtain ⟨hanswer, hdb⟩ := @run_agree userId (handle c env x.2) hasks x.1 _ _ _ _ h h
    have htail := ih (fun y hy => hs y (by simp [hy])) hdb
    exact congrArg₂ List.cons hanswer htail

theorem serveAll_others {userId : Uuid} {session : List (Instant × Request)} {db₀ db : Db}
    (hs : ∀ x ∈ session, ∀ u, x.2.userId = some u → u = userId) (h : Others userId db₀ db) :
    Others userId db₀ (serveAll c env session db).2 := by
  unfold serveAll
  dsimp only
  induction session generalizing db with
  | nil => exact h
  | cons x session ih =>
    have hasks : Asks userId (handle c env x.2) := asks_handle (hs x (by simp))
    have hdb := @run_others userId (handle c env x.2) hasks x.1 _ _ _ h h
    exact ih (fun y hy => hs y (by simp [hy])) hdb

/-! ## The read state under any interleaving -/

/-- What a request assigns to the read state of a notification. -/
def Request.assigns (id : Uuid) : Request → Option Bool
  | .listNotifications _ _ _ _ => none
  | .setNotificationReadState _ _ notificationId read => if notificationId = id then some read else none

/-- No request has run yet. -/
@[reducible] def system {ι : Type} (db : Db) (req : ι → Request) : Sys store ι :=
  Sys.start db () fun i => handle c env (req i)

/-- Requests one after another are a run of the system. -/
theorem serveAll_reach (session : List (Instant × Request)) (db : Db) :
    ∃ s, Reach Any (system c env db fun i : Fin session.length => (session.get i).2) s ∧
      s.world.db = (serveAll c env session db).2 ∧
      List.Forall₂ (fun i a => ⟨i, .done a⟩ ∈ s.world.tr) (List.finRange session.length) (serveAll c env session db).1 := by
  obtain ⟨is, his⟩ : ∃ is, is = (List.finRange session.length).map fun i => (i, solo (session.get i).1) := ⟨_, rfl⟩
  obtain ⟨prog, hprog⟩ : ∃ prog : Fin session.length → Handler Answer, prog = fun i => handle c env (session.get i).2 :=
    ⟨_, rfl⟩
  have hfst : is.map Prod.fst = List.finRange session.length := by
    rw [his, List.map_map]
    exact List.map_id _
  have hnodup : (is.map Prod.fst).Nodup := by
    rw [hfst]
    exact List.nodup_finRange _
  have hsession : is.map (fun x => (x.2, prog x.1)) = session.map fun x => (solo x.1, handle c env x.2) := by
    have hget : (List.finRange session.length).map session.get = session := List.map_get_finRange session
    conv_rhs => rw [← hget]
    rw [his, hprog, List.map_map, List.map_map]
    rfl
  have hwaits : ∀ x ∈ is, (Sys.start db () prog : Sys store (Fin session.length)).txs x.1 = .run (prog x.1) [] id :=
    fun _ _ => rfl
  obtain ⟨s, hr, hend, hall⟩ := serve_reach hnodup hwaits fun _ => rfl
  rw [hsession] at hend hall
  rw [hprog] at hr
  refine ⟨s, hr, (Prod.mk.inj hend).1, ?_⟩
  rw [← hfst, List.forall₂_map_left_iff]
  exact hall

section History

variable {c env} {ι : Type} {req : ι → Request}

/-- The assignments to a notification that have committed, in commit order. -/
def assignments (req : ι → Request) (id : Uuid) (w : World store ι) : List Bool :=
  (commits w.tr).filterMap fun i => (req i).assigns id

variable {w w' : World store ι} {i : ι}

theorem assignments_commit {f : Db → Db} {id : Uuid} :
    assignments req id (w.commit i f) = assignments req id w ++ ((req i).assigns id).toList := by
  unfold assignments
  rw [commits_commit, List.filterMap_append]
  cases h : (req i).assigns id <;> simp [h]

theorem assignments_quiet (h : Quiet i w w') (id : Uuid) : assignments req id w' = assignments req id w := by
  unfold assignments
  rw [h.commits]

/-- A notification after the commit of a request. -/
theorem Request.Effect.row {q : Request} {db db' : Db} (h : q.Effect db db') {id : Uuid} {n : Notification}
    (hn : db.notifications.row id = some n) :
    (q.assigns id = none ∧ db'.notifications.row id = some n) ∨
      ∃ read now, q.assigns id = some read ∧ db'.notifications.row id = some (n.assign read now) ∧
        q.userId = some n.userId := by
  cases q with
  | listNotifications cookie cursor limit read =>
    obtain rfl : db' = db := h
    exact Or.inl ⟨rfl, hn⟩
  | setNotificationReadState cookie csrf notificationId read =>
    obtain ⟨now, m, howner, rfl, hrow, rfl⟩ := h
    by_cases hid : m.id = id
    · subst hid
      rw [hrow] at hn
      cases hn
      exact Or.inr ⟨read, now, if_pos rfl, (assign_row hrow).mpr (Or.inl ⟨rfl, rfl⟩), howner⟩
    · exact Or.inl ⟨if_neg hid, (assign_row hrow).mpr (Or.inr ⟨Ne.symm hid, hn⟩)⟩

variable [DecidableEq ι]

variable (req) in
/-- What the read states of the notifications tell in the state `s`, and from there on. -/
structure ReadHistory (db : Db) (s : Sys store ι) : Prop where
  /-- A notification is unread exactly if the last committed assignment says so; nothing else of it changes. -/
  last : ∀ id n₀, db.notifications.row id = some n₀ → ∃ n, s.world.db.notifications.row id = some n ∧
    n = n₀.withReadAt n.readAt ∧ (assignments req id s.world = [] → n = n₀) ∧
    ∀ l read, assignments req id s.world = l ++ [read] → (n.readAt = none ↔ read = false)
  /-- The time of the first reading stays until an assignment of unread commits. -/
  first : ∀ s', Reach Any s s' → ∀ id n, s.world.db.notifications.row id = some n → n.readAt ≠ none →
    ∃ l, assignments req id s'.world = assignments req id s.world ++ l ∧
      (false ∉ l → s'.world.db.notifications.row id = some n)
  /-- A commit touches only notifications of its user. -/
  frame : ∀ s' i, Step Any s s' → s'.world.tr = s.world.tr ++ [⟨i, .commit⟩] → ∀ id n,
    s.world.db.notifications.row id = some n → (req i).userId ≠ some n.userId →
    s'.world.db.notifications.row id = some n

variable {db : Db} {s s' : Sys store ι}

theorem read_last (hr : Reach Any (system c env db req) s) {id : Uuid} {n₀ : Notification}
    (h0 : db.notifications.row id = some n₀) : ∃ n, s.world.db.notifications.row id = some n ∧
      n = n₀.withReadAt n.readAt ∧ (assignments req id s.world = [] → n = n₀) ∧
      ∀ l read, assignments req id s.world = l ++ [read] → (n.readAt = none ↔ read = false) := by
  refine Logic.invariant_commit (Φ := contract Any req) (J := fun w => ∃ n, w.db.notifications.row id = some n ∧
    n = n₀.withReadAt n.readAt ∧ (assignments req id w = [] → n = n₀) ∧
    ∀ l read, assignments req id w = l ++ [read] → (n.readAt = none ↔ read = false))
    (fun _ => runs) once (fun hq h => ?_) (fun {s i f} _ h _ _ hc => ?_) ?_ hr
  · rw [hq.db, assignments_quiet hq]
    exact h
  · obtain ⟨n, hn, hsame, hnone, hlast⟩ := h
    rw [assignments_commit]
    rcases hc.2.row hn with ⟨ha, hn'⟩ | ⟨read, now, ha, hn', -⟩
    · refine ⟨n, hn', hsame, ?_⟩
      rw [ha, Option.toList_none, List.append_nil]
      exact ⟨hnone, hlast⟩
    · refine ⟨_, hn', by rw [hsame]; rfl, fun h => ?_, fun l read' h => ?_⟩
      · rw [ha] at h
        simp at h
      · rw [ha] at h
        obtain ⟨-, hread⟩ := List.append_inj' h rfl
        cases hread
        cases read <;> simp [Notification.assign, Notification.withReadAt]
  · refine ⟨n₀, h0, rfl, fun _ => rfl, fun l read h => ?_⟩
    simp [assignments, commits] at h

theorem read_first (hr : Reach Any (system c env db req) s) (hs : Reach Any s s') {id : Uuid} {n : Notification}
    (hn : s.world.db.notifications.row id = some n) (hread : n.readAt ≠ none) :
    ∃ l, assignments req id s'.world = assignments req id s.world ++ l ∧
      (false ∉ l → s'.world.db.notifications.row id = some n) := by
  induction hs with
  | refl => exact ⟨[], by simp, fun _ => hn⟩
  | @tail s₁ s₂ hpre hstep ih =>
    obtain ⟨l, hl, hkeep⟩ := ih
    rcases Logic.step_cases (Φ := contract Any req) (fun _ => runs) once (hr.trans hpre) hstep with
      ⟨i, hq⟩ | ⟨i, f, -, -, hc, hw⟩
    · refine ⟨l, by rw [assignments_quiet hq, hl], fun h => ?_⟩
      rw [hq.db]
      exact hkeep h
    · rw [hw, assignments_commit, hl]
      refine ⟨l ++ ((req i).assigns id).toList, by rw [List.append_assoc], fun h => ?_⟩
      rw [List.mem_append, not_or] at h
      rcases hc.2.row (hkeep h.1) with ⟨-, hn'⟩ | ⟨read, now, ha, hn', -⟩
      · exact hn'
      · -- a second reading keeps the time of the first
        rw [ha] at h
        obtain rfl : read = true := by simpa using h.2
        have hkept : some (n.readAt.getD now) = n.readAt := by
          obtain ⟨t, ht⟩ := Option.ne_none_iff_exists'.mp hread
          rw [ht]
          rfl
        unfold Notification.assign at hn'
        rw [if_pos rfl, hkept] at hn'
        exact hn'

theorem read_frame (hr : Reach Any (system c env db req) s) (h : Step Any s s')
    (htr : s'.world.tr = s.world.tr ++ [⟨i, .commit⟩]) {id : Uuid} {n : Notification}
    (hn : s.world.db.notifications.row id = some n) (hu : (req i).userId ≠ some n.userId) :
    s'.world.db.notifications.row id = some n := by
  obtain ⟨f, -, hc, hw⟩ := Logic.commit_step (Φ := contract Any req) (fun _ => runs) once hr h htr
  rw [hw]
  rcases hc.2.row hn with ⟨-, hn'⟩ | ⟨read, now, -, -, howner⟩
  · exact hn'
  · exact absurd howner hu

end History

/-- **Notification isolation**: requests of a user, one after another, are answered alike in databases that agree on
the user's account and notifications, and touch no notification of others; and under any interleaving of any
requests the read state of a notification is that of the last committed assignment. -/
theorem notification_isolation :
    (∀ userId session, (∀ x ∈ session, ∀ u, Request.userId x.2 = some u → u = userId) →
      (∀ db db', Agree userId db db' → (serveAll c env session db').1 = (serveAll c env session db).1) ∧
      ∀ db, Others userId db (serveAll c env session db).2) ∧
    ∀ (ι : Type) [DecidableEq ι] (req : ι → Request) (db : Db) (s : Sys store ι),
      Reach Any (system c env db req) s → ReadHistory req db s := by
  refine ⟨fun userId session hs => ⟨fun db db' h => serveAll_agree c env hs h, fun db => serveAll_others c env hs fun _ _ _ => Iff.rfl⟩,
    fun ι _ req db s hr => ?_⟩
  exact ⟨fun id n₀ h0 => read_last hr h0, fun s' hs id n hn hread => read_first hr hs hn hread,
    fun s' i h htr id n hn hu => read_frame hr h htr hn hu⟩

/-! ### A foreign notification -/

/-- A notification that is inserted is seen by its user only. -/
theorem agree_insert {userId : Uuid} {n : Notification} (hn : n.userId ≠ userId) (db : Db) :
    Agree userId db { db with notifications := db.notifications.insert n } := by
  refine ⟨rfl, fun id n' hn' => ?_⟩
  dsimp only
  rw [Table.row_insert]
  by_cases h : id = n.id ∧ db.notifications.row id = none
  · rw [if_pos h, h.2]
    constructor
    · intro heq
      cases heq
      exact absurd hn' hn
    · intro heq
      cases heq
  · rw [if_neg h]

/-- An answer at the time that is chosen. -/
def player : Player store Instant := ⟨fun o db _ now => some (reply now o db), fun _ h => ⟨_, (Option.some.inj h).symm⟩⟩

/-- The access token of an account. -/
def sampleCookie : Option AccessTokenClaims := some ⟨7, 1, .customer, true, false, 0⟩

/-- A verified account with one notification. -/
def sampleDb : Db where
  users := Table.empty.insert { Identity.sampleUser with id := 7, emailVerifiedAt := some 0 }
  notifications := Table.empty.insert ⟨1, 7, .order, .dict [], none, 0⟩

/-- The notification of another account. -/
def foreignNotification : Notification := ⟨2, 8, .order, .dict [], none, 0⟩

/-- The list, a foreign notification or one that does not exist, and the user's own. -/
def sampleSession : List (Instant × Request) :=
  [(1, .listNotifications sampleCookie none 20 none), (2, .setNotificationReadState sampleCookie (some "csrf") 2 true),
    (3, .setNotificationReadState sampleCookie (some "csrf") 1 true)]

/-- One request reads the notification and one unreads it. -/
def readAndUnread (i : Fin 2) : Request := .setNotificationReadState sampleCookie (some "csrf") 1 (i.val = 0)

theorem notification_isolation_of_sample :
    (serveAll Api.calendar Identity.sampleEnv sampleSession
        { sampleDb with notifications := sampleDb.notifications.insert foreignNotification }).1 =
      (serveAll Api.calendar Identity.sampleEnv sampleSession sampleDb).1 ∧
    Others 7 sampleDb (serveAll Api.calendar Identity.sampleEnv sampleSession sampleDb).2 ∧
    ∃ s, Reach Any (system Api.calendar Identity.sampleEnv sampleDb readAndUnread) s ∧
      assignments readAndUnread 1 s.world = [true, false] ∧ ReadHistory readAndUnread sampleDb s := by
  have hsession : ∀ x ∈ sampleSession, ∀ u, Request.userId x.2 = some u → u = 7 := by
    intro x hx u hu
    simp only [sampleSession, List.mem_cons, List.not_mem_nil, or_false] at hx
    rcases hx with rfl | rfl | rfl
    · exact (Option.some.inj hu).symm
    · exact (Option.some.inj hu).symm
    · exact (Option.some.inj hu).symm
  have hforeign : foreignNotification.userId ≠ 7 := by decide
  obtain ⟨s, hr, hs⟩ := play_any player (fun _ _ => true) (A := Any) (fun _ => trivial)
    (system Api.calendar Identity.sampleEnv sampleDb readAndUnread)
    [.go 0 1, .go 0 1, .go 1 2, .go 1 2, .go 0 1, .go 0 1, .go 1 2, .go 1 2, .go 0 1, .go 1 2]
    (fun s => decide (assignments readAndUnread 1 s.world = [true, false])) (by decide +kernel)
  have hiso := notification_isolation Api.calendar Identity.sampleEnv
  obtain ⟨hagree, hothers⟩ := hiso.1 7 sampleSession hsession
  exact ⟨hagree _ _ (agree_insert hforeign sampleDb), hothers sampleDb, s, hr, of_decide_eq_true hs,
    hiso.2 (Fin 2) readAndUnread sampleDb s hr⟩

end Bekaa3D.Engagement
