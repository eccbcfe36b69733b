import Bekaa3D.Identity.Revocation
import Bekaa3D.Txn.Chain

/-!
# Identity.Activation — the history of an account's activations

Activations, deactivations and password resets of any number of accounts, by any administrators, in any
interleaving.

* `Allowed.moves`: what one commit does to an account's epoch, to its activation and to their audit rows.
* `ActivationHistory`: the epoch counts the resets and the deactivations, and the audit rows are the chain of
  the activations.
-/

namespace Bekaa3D.Identity

open Txn

variable {env : Env} {ι : Type}

def Request.ofActivation : Request → Prop
  | .confirmPasswordReset _ _ _ | .updateUser _ _ _ _ _ => True
  | _ => False

/-- Transaction `c` finds the account `u` active and deactivates it. -/
def Deactivates (req : ι → Request) (w : World (store env) ι) (c : ι) (u : Uuid) : Prop :=
  (∃ claims csrf ctx, req c = .updateUser claims csrf u false ctx) ∧
    ∃ v, Did w c (.selectUserForUpdate u) (some v) ∧ v.isActive = true

/-- Transaction `c` asks for the activation that the account `u` has. -/
def Restates (req : ι → Request) (w : World (store env) ι) (c : ι) (u : Uuid) : Prop :=
  ∃ claims csrf isActive ctx v, req c = .updateUser claims csrf u isActive ctx ∧
    Did w c (.selectUserForUpdate u) (some v) ∧ v.isActive = isActive

/-! ## Audit rows -/

def AuditData.get (data : Option AuditData) (key : String) : Option AuditValue :=
  data.bind fun d => (d.find? fun kv => kv.1 = key).map Prod.snd

/-- The audit row of an activation or a deactivation of `u`. -/
def AuditLog.isActivation (u : Uuid) (row : AuditLog) : Bool :=
  row.entityId = some u && (row.action = "user.activated" || row.action = "user.deactivated")

def AuditLog.before (row : AuditLog) : Option AuditValue := AuditData.get row.beforeData "is_active"

def AuditLog.after (row : AuditLog) : Option AuditValue := AuditData.get row.afterData "is_active"

/-- The audit row of a change of `is_active` from `b` to the opposite. -/
structure AuditLog.Flips (row : AuditLog) (b : Bool) : Prop where
  before : row.before = some (.bool b)
  after : row.after = some (.bool !b)
  action : row.action = if b then "user.deactivated" else "user.activated"

/-- An activation's audit row and a deactivation's. -/
theorem AuditLog.Flips.alternate {row row' : AuditLog} {b b' : Bool} (h : row.Flips b) (h' : row'.Flips b')
    (hn : row'.before = row.after) : row.action ≠ row'.action := by
  obtain rfl : b' = !b := by
    rw [h.after, h'.before] at hn
    cases hn
    rfl
  rw [h.action, h'.action]
  cases b <;> decide

variable [DecidableEq ι] {A : World (store env) ι → Event (store env) ι → Prop}
  {req : ι → Request} {db : Db} {mem : Mem} {i c : ι} {u : Uuid} {v v₀ : User} {w : World (store env) ι}
  {ch : Change}

/-! ## One commit -/

section Moves

open Classical in
/-- What a commit does to the account `u`: its epoch counts it if it is a reset or a deactivation, and its
activation stays without an audit row or changes with one. -/
theorem Allowed.moves (ha : Allowed A w i (req i) ch) (hp : (req i).ofActivation) (ht : Told req w) {db' : Db}
    (hrel : ch.Rel w.db db') (hv : w.db.users.row u = some v) :
    ∃ v', db'.users.row u = some v' ∧ v'.authEpoch = v.authEpoch + (if Resets req w i u then 1 else 0) +
        (if Deactivates req w i u then 1 else 0) ∧
      (v'.isActive = v.isActive ∧ ch.audits.filter (AuditLog.isActivation u) = [] ∨
        v'.isActive = !v.isActive ∧ ∃ row, ch.audits.filter (AuditLog.isActivation u) = [row] ∧
          row.Flips v.isActive) := by
  have hvid := w.db.users.row_key _ _ hv
  have other : ∀ {x : User}, Did w i (.selectUserForUpdate x.id) (some x) → u ≠ x.id →
      ¬Resets req w i u ∧ ¬Deactivates req w i u := by
    intro x hd hne
    refine ⟨fun h => ?_, fun h => ?_⟩
    · obtain ⟨-, y, rfl, hy⟩ := h
      exact hne (ht.lockUser hy hd).1
    · obtain ⟨-, y, hy, -⟩ := h
      exact hne (ht.lockUser hy hd).1
  have row_ne : ∀ {ctx : AuditContext} {actor x : Uuid} {action : String} {d d' : Option AuditData}, u ≠ x →
      [ctx.log actor action "User" (some x) d d'].filter (AuditLog.isActivation u) = [] := fun hne => by
    simp [AuditContext.log, AuditLog.isActivation, Ne.symm hne]
  have row_self : ∀ {ctx : AuditContext} {actor x : Uuid} {action : String} {d d' : Option AuditData},
      (action = "user.activated" || action = "user.deactivated") = true →
      [ctx.log actor action "User" (some x) d d'].filter (AuditLog.isActivation x) =
        [ctx.log actor action "User" (some x) d d'] := fun h => by
    simpa [AuditContext.log, AuditLog.isActivation] using h
  generalize hr : req i = r at ha hp
  cases ha with
  | @reset raw password ctx x t now h n lockT unused lock owner can hashed =>
    rcases Table.Change.Rel.of_set hrel.users hv with ⟨rfl, rfl, h'⟩ | ⟨hne, h'⟩
    · have h1 : Resets req w i v.id := ⟨⟨raw, password, ctx, hr⟩, v, rfl, lock.did⟩
      have h2 : ¬Deactivates req w i v.id := by
        rintro ⟨⟨_, _, _, h⟩, _⟩
        rw [hr] at h
        cases h
      refine ⟨_, h', ?_, Or.inl ⟨rfl, ?_⟩⟩
      · rw [if_pos h1, if_neg h2]
        rfl
      · simp [AuditContext.log, AuditLog.isActivation]
    · obtain ⟨h1, h2⟩ := other lock.did hne
      exact ⟨v, h', by rw [if_neg h1, if_neg h2]; rfl, Or.inl ⟨rfl, row_ne hne⟩⟩
  | @userUnchanged claims csrf userId isActive ctx x did same =>
    have h1 : ¬Resets req w i u := by
        rintro ⟨⟨_, _, _, h⟩, _⟩
        rw [hr] at h
        cases h
    have h2 : ¬Deactivates req w i u := by
      rintro ⟨⟨_, _, _, h⟩, y, hy, hact⟩
      obtain ⟨rfl, hxy⟩ := ht.lockUser hy did
      cases hxy
      rw [hr] at h
      cases h
      rw [hact] at same
      cases same
    exact ⟨v, (hrel.users u).trans hv, by rw [if_neg h1, if_neg h2]; rfl, Or.inl ⟨rfl, rfl⟩⟩
  | @userActivated claims csrf userId ctx x lock id inactive =>
    have h1 : ¬Resets req w i u := by
        rintro ⟨⟨_, _, _, h⟩, _⟩
        rw [hr] at h
        cases h
    have h2 : ¬Deactivates req w i u := by
        rintro ⟨⟨_, _, _, h⟩, _⟩
        rw [hr] at h
        cases h
    rcases Table.Change.Rel.of_set hrel.users hv with ⟨rfl, rfl, h'⟩ | ⟨hne, h'⟩
    · refine ⟨_, h', by rw [if_neg h1, if_neg h2]; rfl, Or.inr ⟨by rw [inactive]; rfl, _, row_self rfl, ?_⟩⟩
      rw [inactive]
      exact ⟨rfl, rfl, rfl⟩
    · exact ⟨v, h', by rw [if_neg h1, if_neg h2]; rfl, Or.inl ⟨rfl, row_ne hne⟩⟩
  | @userDeactivated claims csrf userId ctx x now ids n lock id active scanned count =>
    have h1 : ¬Resets req w i u := by
        rintro ⟨⟨_, _, _, h⟩, _⟩
        rw [hr] at h
        cases h
    rcases Table.Change.Rel.of_set hrel.users hv with ⟨rfl, rfl, h'⟩ | ⟨hne, h'⟩
    · have h2 : Deactivates req w i v.id := ⟨⟨claims, csrf, ctx, by rw [hr, id]⟩, v, lock.did, active⟩
      refine ⟨_, h', by rw [if_neg h1, if_pos h2]; rfl, Or.inr ⟨by rw [active]; rfl, _, row_self rfl, ?_⟩⟩
      rw [active]
      exact ⟨rfl, rfl, rfl⟩
    · obtain ⟨-, h2⟩ := other lock.did hne
      exact ⟨v, h', by rw [if_neg h1, if_neg h2]; rfl, Or.inl ⟨rfl, row_ne hne⟩⟩
  | _ => exact hp.elim

end Moves

/-! ## The history -/

section History

omit [DecidableEq ι]

theorem resets_quiet {w' : World (store env) ι} (hq : Quiet i w w') (hc : Committed w c) :
    Resets req w' c u ↔ Resets req w c u := by
  unfold Resets
  simp only [hq.did hc]

theorem deactivates_quiet {w' : World (store env) ι} (hq : Quiet i w w') (hc : Committed w c) :
    Deactivates req w' c u ↔ Deactivates req w c u := by
  unfold Deactivates
  simp only [hq.did hc]

theorem resets_commit {f : Db → Db} : Resets req (w.commit i f) c u ↔ Resets req w c u := by
  unfold Resets
  simp only [did_commit]

theorem deactivates_commit {f : Db → Db} : Deactivates req (w.commit i f) c u ↔ Deactivates req w c u := by
  unfold Deactivates
  simp only [did_commit]

end History

/-- The account `u`, which was `v₀` at the start, is `v`, and the audit log has grown by `rows`. -/
structure Activated (db : Db) (req : ι → Request) (w : World (store env) ι) (v₀ v : User) (rows : List AuditLog) :
    Prop where
  row : w.db.users.row v₀.id = some v
  epoch : v.authEpoch = v₀.authEpoch + {c | Committed w c ∧ Resets req w c v₀.id}.ncard +
    {c | Committed w c ∧ Deactivates req w c v₀.id}.ncard
  log : w.db.auditLogs = db.auditLogs ++ rows
  chain : Chain AuditLog.before AuditLog.after (some (.bool v₀.isActive)) (rows.filter (AuditLog.isActivation v₀.id))
    (some (.bool v.isActive))
  flips : ∀ row ∈ rows.filter (AuditLog.isActivation v₀.id), ∃ b, row.Flips b

omit [DecidableEq ι] in
theorem Activated.quiet {w' : World (store env) ι} {rows : List AuditLog} (h : Activated db req w v₀ v rows)
    (hq : Quiet i w w') : Activated db req w' v₀ v rows := by
  refine ⟨by rw [hq.db]; exact h.row, ?_, by rw [hq.db]; exact h.log, h.chain, h.flips⟩
  rw [hq.setOf fun c hc => resets_quiet hq hc, hq.setOf fun c hc => deactivates_quiet hq hc]
  exact h.epoch

theorem Activated.commit {rows : List AuditLog} (h : Activated db req w v₀ v rows) (hu : ¬Committed w i)
    (hp : (req i).ofActivation) (ht : Told req w) (ha : Allowed A w i (req i) ch) {f : Db → Db}
    (hrel : ch.Rel w.db (f w.db)) : ∃ v' rows', Activated db req (w.commit i f) v₀ v' rows' := by
  classical
  obtain ⟨v', hv', hepoch, hact⟩ := ha.moves hp ht hrel h.row
  have hlog : (f w.db).auditLogs = db.auditLogs ++ (rows ++ ch.audits) := by
    rw [hrel.audits, h.log, List.append_assoc]
  refine ⟨v', rows ++ ch.audits, hv', ?_, hlog, ?_, fun row hrow => ?_⟩
  · rw [ncard_commit hu (P := fun c => Resets req w c v₀.id) fun c => resets_commit,
      ncard_commit hu (P := fun c => Deactivates req w c v₀.id) fun c => deactivates_commit, hepoch, h.epoch]
    omega
  · rw [List.filter_append]
    rcases hact with ⟨hsame, hnone⟩ | ⟨hflip, row, hone, hrow⟩
    · rw [hnone, List.append_nil, hsame]
      exact h.chain
    · rw [hone, hflip, ← hrow.after]
      exact h.chain.snoc hrow.before
  · rw [List.filter_append] at hrow
    rcases List.mem_append.mp hrow with hold | hnew
    · exact h.flips row hold
    · rcases hact with ⟨-, hnone⟩ | ⟨-, row', hone, hflips⟩
      · rw [hnone] at hnew
        cases hnew
      · rw [hone, List.mem_singleton] at hnew
        exact ⟨v.isActive, by rw [hnew]; exact hflips⟩

/-- The history of every account, in every reachable state. -/
theorem activated (hp : ∀ i, (req i).ofActivation) {s : Sys (store env) ι}
    (hr : Reach A (system env db mem req) s) (hv : db.users.row u = some v₀) :
    ∃ v rows, Activated db req s.world v₀ v rows := by
  have hid := db.users.row_key _ _ hv
  refine invariant_commit (J := fun w => ∃ v rows, Activated db req w v₀ v rows)
    (fun hq ⟨v, rows, h⟩ => ⟨v, rows, h.quiet hq⟩)
    (fun hs ⟨v, rows, h⟩ _ hn ha hrel _ => h.commit (fun hc => hn ⟨_, hc, rfl, trivial⟩) (hp _) (told hs) ha hrel)
    ⟨v₀, [], ?_⟩ hr
  have none : ∀ P : ι → Prop, {c | Committed (⟨db, mem, []⟩ : World (store env) ι) c ∧ P c} = ∅ := fun P => by
    ext c
    exact ⟨fun h => (List.not_mem_nil h.1).elim, fun h => h.elim⟩
  refine ⟨by rw [hid]; exact hv, ?_, by simp, rfl, by simp⟩
  rw [none, none]
  simp

/-! ## The sessions that a deactivation counts -/

section Sessions

variable {s : Sys (store env) ι}

theorem liveOf_revokeLive {u' : Uuid} (hne : u' ≠ u) (now : Instant) (x : Session) :
    (revokeLive u' now x).liveOf u = x.liveOf u := by
  unfold revokeLive
  split
  · rename_i h
    have hx : x.userId = u' := by simpa using (Bool.and_eq_true_iff.mp h).1
    simp [Session.liveOf, Session.revokedAtIs, hx, hne]
  · rfl

theorem scan_perm {V : Type} {key : V → Uuid} {t t' : Table key} {p : V → Bool}
    (h : ∀ k, (t'.row k).any p = (t.row k).any p) : (t.scan p).Perm (t'.scan p) := by
  refine (List.perm_ext_iff_of_nodup Table.nodup_scan Table.nodup_scan).mpr fun k => ?_
  have h' := h k
  rw [Table.mem_scan, Table.mem_scan]
  constructor
  · rintro ⟨v, hv, hp⟩
    rw [hv, Option.any_some, hp] at h'
    exact (Option.any_eq_true _ _).mp h'
  · rintro ⟨v, hv, hp⟩
    rw [hv, Option.any_some, hp] at h'
    exact (Option.any_eq_true _ _).mp h'.symm

/-- A commit for another account leaves the live sessions of `u` as they are. -/
theorem Allowed.live (ha : Allowed A w i (req i) ch) (hp : (req i).ofActivation) {db' : Db} (hrel : ch.Rel w.db db')
    (hne : ∀ x : User, Did w i (.selectUserForUpdate x.id) (some x) → x.id ≠ u) :
    (w.db.sessions.scan (Session.liveOf u)).Perm (db'.sessions.scan (Session.liveOf u)) := by
  have keep : ch.sessions = .keep →
      (w.db.sessions.scan (Session.liveOf u)).Perm (db'.sessions.scan (Session.liveOf u)) := fun h => by
    have h' := hrel.sessions
    rw [h] at h'
    exact scan_perm fun k => by rw [h' k]
  have map : ∀ {u' now}, u' ≠ u → ch.sessions = .map (revokeLive u' now) →
      (w.db.sessions.scan (Session.liveOf u)).Perm (db'.sessions.scan (Session.liveOf u)) := fun hne h => by
    have h' := hrel.sessions
    rw [h] at h'
    refine scan_perm fun k => ?_
    rw [h' k]
    cases w.db.sessions.row k with
    | none => rfl
    | some x => simp [liveOf_revokeLive hne]
  generalize req i = r at ha hp
  cases ha with
  | @reset raw password ctx x t now h n lockT unused lock owner can hashed => exact map (hne x lock.did) rfl
  | userUnchanged did same => exact keep rfl
  | userActivated lock id inactive => exact keep rfl
  | @userDeactivated claims csrf userId ctx x now ids n lock id active scanned count =>
    exact map (hne x lock.did) rfl
  | _ => exact hp.elim

/-- The sessions that a transaction found live are live until it ends. -/
theorem scanned_live (hp : ∀ i, (req i).ofActivation) (hr : Reach A (system env db mem req) s) {ids : List Uuid}
    (hd : Did s.world c (.scanLiveSessions u) ids) (hn : ¬s.world.Ended c) :
    ids.Perm (s.world.db.sessions.scan (Session.liveOf u)) := by
  suffices hJ : ∀ c u ids, Did s.world c (.scanLiveSessions u) ids → ¬s.world.Ended c →
      ids.Perm (s.world.db.sessions.scan (Session.liveOf u)) from hJ c u ids hd hn
  clear hd hn
  have old : ∀ {w : World (store env) ι} {e : Event (store env) ι} {c : ι},
      ¬World.Ended ⟨w.db, w.mem, w.tr ++ [e]⟩ c → ¬w.Ended c := fun hn ⟨x, hx, h⟩ =>
    hn ⟨x, List.mem_append_left _ hx, h⟩
  refine invariant (J := fun w => ∀ c u ids, Did w c (.scanLiveSessions u) ids → ¬w.Ended c →
    ids.Perm (w.db.sessions.scan (Session.liveOf u))) ?_ (fun _ _ _ hd => (List.not_mem_nil hd).elim) hr
  refine ⟨?_, ?_, fun _ hJ _ _ c u ids hd hn => ?_, fun _ hJ _ c u ids hd hn => ?_⟩
  · intro s i L f o r hs hJ hi hA hc hresp c u ids hd hn
    by_cases hci : c = i
    · subst hci
      rcases did_stmt.mp hd with hd | he
      · exact hJ c u ids hd (old hn)
      · cases he
        have hscan : ids.Perm ((f s.world.db).sessions.scan (Session.liveOf u)) := hresp
        exact hscan.trans (scan_perm fun k => by rw [hc.2.2.2 k]; rfl)
    · exact hJ c u ids ((did_stmt_ne hci).mp hd) (old hn)
  · intro s i f hs hJ hi hA hc hg c u ids hd hn
    have hd := did_commit.mp hd
    have hci : c ≠ i := by
      rintro rfl
      exact hn ⟨⟨c, .commit⟩, by simp, rfl, trivial⟩
    obtain ⟨⟨v, hvid, hv⟩, -⟩ := (told hs).chk hd
    obtain ⟨hu, ch, ha, hrel⟩ := hc
    refine (hJ c u ids hd (old hn)).trans (ha.live (hp i) hrel fun x hx hxu => hci ?_)
    exact lockUser_exclusive hs hv hx (hvid.trans hxu.symm) (old hn) (not_ended hs hi hu)
  · exact hJ c u ids ((did_push fun _ _ h => by cases h).mp hd) (old hn)
  · exact hJ c u ids ((did_push fun _ _ h => by cases h).mp hd) (old hn)

end Sessions

/-! ## What the history says -/

/-- What holds of the account `u` in the state `s`, and of the steps from there. -/
structure ActivationHistory (A : World (store env) ι → Event (store env) ι → Prop) (db : Db) (req : ι → Request)
    (s : Sys (store env) ι) (u : Uuid) : Prop where
  /-- The epoch counts the resets and deactivations, and the audit rows are the chain of the activations … -/
  activated : ∀ v₀, db.users.row u = some v₀ → ∃ v rows, Activated db req s.world v₀ v rows
  /-- … which alternate. -/
  alternate : ∀ v₀ v rows pre row row' post, Activated db req s.world v₀ v rows → v₀.id = u →
    rows.filter (AuditLog.isActivation u) = pre ++ row :: row' :: post → row.action ≠ row'.action
  /-- A request that restates the stored value writes nothing. -/
  restated : ∀ s' c, Step A s s' → s'.world.tr = s.world.tr ++ [commitOf c] → Restates req s.world c u →
    Unchanged s.world.db s'.world.db
  /-- The `UPDATE` of a deactivation finds the sessions that are not revoked … -/
  scanned : ∀ s' c ids, Step A s s' → s'.world.tr = s.world.tr ++ [⟨c, .stmt (.scanLiveSessions u) ids⟩] →
    ids.Perm (s.world.db.sessions.scan (Session.liveOf u))
  /-- … and its audit row counts them; they are still those when it commits. -/
  counted : ∀ s' c, Step A s s' → s'.world.tr = s.world.tr ++ [commitOf c] → Deactivates req s.world c u →
    ∃ row ids, s'.world.db.auditLogs = s.world.db.auditLogs ++ [row] ∧ row.isActivation u = true ∧
      AuditData.get row.afterData "sessions_revoked" = some (.int ids.length) ∧
      Did s.world c (.scanLiveSessions u) ids ∧ ids.Perm (s.world.db.sessions.scan (Session.liveOf u))

/-- **The epoch and the activation history agree**, in every interleaving. -/
theorem activation_history (hp : ∀ i, (req i).ofActivation) {s : Sys (store env) ι}
    (hr : Reach A (system env db mem req) s) (u : Uuid) : ActivationHistory A db req s u := by
  refine ⟨fun v₀ hv => activated hp hr hv, fun v₀ v rows pre row row' post h hid hrows => ?_,
    fun s' c hstep htr hres => ?_, fun s' c ids hstep htr => ?_, fun s' c hstep htr hdeact => ?_⟩
  · subst hid
    obtain ⟨b, hb⟩ := h.flips row (by rw [hrows]; simp)
    obtain ⟨b', hb'⟩ := h.flips row' (by rw [hrows]; simp)
    have hchain := h.chain
    rw [hrows] at hchain
    exact hb.alternate hb' hchain.next
  · obtain ⟨hu, ch, ha, hrel⟩ := commit_step hr hstep htr
    obtain ⟨claims, csrf, isActive, ctx, v, hreq, hd, hact⟩ := hres
    rw [hreq] at ha
    cases ha with
    | userUnchanged did same => exact hrel.unchanged
    | userActivated lock id inactive =>
      obtain ⟨-, hv⟩ := (told hr).lockUser hd lock.did
      cases hv
      rw [inactive] at hact
      cases hact
    | userDeactivated lock id active scanned count =>
      obtain ⟨-, hv⟩ := (told hr).lockUser hd lock.did
      cases hv
      rw [active] at hact
      cases hact
  · obtain ⟨f, free, hc, hresp⟩ := stmt_step hr hstep htr
    have hscan : ids.Perm ((f s.world.db).sessions.scan (Session.liveOf u)) := hresp
    exact hscan.trans (scan_perm fun k => by rw [hc.2 k])
  · obtain ⟨hu, ch, ha, hrel⟩ := commit_step hr hstep htr
    obtain ⟨⟨claims, csrf, ctx, hreq⟩, v, hd, hact⟩ := hdeact
    rw [hreq] at ha
    cases ha with
    | userUnchanged did same =>
      obtain ⟨-, hv⟩ := (told hr).lockUser hd did
      cases hv
      rw [hact] at same
      cases same
    | @userDeactivated _ _ _ _ x now ids n lock id active scanned count =>
      subst id
      have hn : ¬s.world.Ended c := by
        cases hstep with
        | commit hi hA =>
          cases List.append_cancel_left htr
          exact not_ended hr (by rw [hi]; exact fun h => by cases h) hu
        | stmt | ret | raise | crash => cases List.append_cancel_left htr
      have hlive := scanned_live hp hr scanned hn
      refine ⟨_, ids, hrel.audits, by simp [AuditContext.log, AuditLog.isActivation], ?_, scanned, hlive⟩
      rw [hlive.length_eq, ← count]
      rfl

/-- An administrator deactivates an account, and its password is reset. -/
def deactivateAndReset : Fin 2 → Request
  | 0 => .updateUser ⟨1, 3, .admin, true, true, 0⟩ (some "csrf") 1 false {}
  | 1 => .confirmPasswordReset "token" "new" {}

/-- The deactivation commits before the reset looks for the account. -/
theorem deactivated_history : ∃ s, Reach Any (system sampleEnv sampleDb sampleMem deactivateAndReset) s ∧
    s.world.sees 0 Act.isCommit = true ∧ ActivationHistory Any sampleDb deactivateAndReset s 1 := by
  obtain ⟨s, hr, hs⟩ := play_any (player sampleEnv) (fun _ _ => true) (A := Any) (fun _ => trivial)
    (system sampleEnv sampleDb sampleMem deactivateAndReset)
    (List.replicate 8 (.go 0 { n := 5 }) ++ List.replicate 3 (.go 1 { s := "new" }))
    (fun s => s.world.sees 0 Act.isCommit) (by decide +kernel)
  refine ⟨s, hr, hs, activation_history (fun i => ?_) hr 1⟩
  match i with
  | 0 => trivial
  | 1 => trivial

end Bekaa3D.Identity
