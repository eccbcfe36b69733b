import Bekaa3D.Txn.Play
import Bekaa3D.Paging.Keyset
import Bekaa3D.Jobs.Contract

/-!
# Jobs.Play — schedules of the outbox

* `dueFirst`: the messages that are due, the longest due first; `claims_dueFirst`: a worker may be given the first of
  them.
* `player`: answers the statements by the rows that are there; clocks, new keys and the provider follow the schedule.
-/

namespace Bekaa3D.Jobs

open Txn
open Identity (Uuid Instant)
open Platform (OutboxStatus)
open Text.Json (Str ofString)

/-! ## Claims -/

instance (m : EmailOutboxMessage) (now : Instant) : Decidable (m.Due now) :=
  inferInstanceAs (Decidable (m.status = .pending ∧ m.sendAfter ≤ now))

/-- The messages that are due and satisfy `ok`, the longest due first. -/
def dueFirst (now : Instant) (db : Db) (ok : EmailOutboxMessage → Bool) : List EmailOutboxMessage :=
  Paging.sorted EmailOutboxMessage.sendAfter (db.rows.filter fun m => decide (m.Due now) && ok m)

variable {now : Instant} {db : Db} {ok : EmailOutboxMessage → Bool}

theorem mem_dueFirst {m : EmailOutboxMessage} :
    m ∈ dueFirst now db ok ↔ db.row m.id = some m ∧ m.Due now ∧ ok m = true := by
  unfold dueFirst
  rw [Paging.mem_sorted, List.mem_filter, Table.mem_rows, Bool.and_eq_true, decide_eq_true_eq]

/-- The first messages that are due and satisfy `ok`, where the others are not free. -/
theorem claims_dueFirst {free : Uuid → Prop} (h : ∀ m, free m.id → ok m = true) (limit : ℕ) :
    Claims limit now db free ((dueFirst now db ok).take limit) := by
  have hsub : (dueFirst now db ok).take limit ⊆ dueFirst now db ok := List.take_subset _ _
  have hsorted : (dueFirst now db ok).Pairwise fun m m' => m.sendAfter ≤ m'.sendAfter := Paging.le_sorted
  have hnodup : ((dueFirst now db ok).map EmailOutboxMessage.id).Nodup := by
    refine (Paging.perm_sorted.map _).nodup_iff.mpr ?_
    exact (db.nodup_rows fun m m' h => h).sublist (List.filter_sublist.map _)
  refine ⟨fun m hm => ?_, hnodup.sublist ((List.take_sublist _ _).map _), hsorted.sublist (List.take_sublist _ _),
    List.length_take_le _ _, fun m hrow hd hf hm => ?_⟩
  · obtain ⟨hrow, hd, -⟩ := mem_dueFirst.mp (hsub hm)
    exact ⟨hrow, hd⟩
  · have hmem : m ∈ dueFirst now db ok := mem_dueFirst.mpr ⟨hrow, hd, h m hf⟩
    have hdrop : m ∈ (dueFirst now db ok).drop limit := by
      rw [← List.take_append_drop limit (dueFirst now db ok)] at hmem
      exact (List.mem_append.mp hmem).resolve_left hm
    refine ⟨?_, fun m' hm' => ?_⟩
    · have hlen := List.length_pos_of_mem hdrop
      rw [List.length_drop] at hlen
      rw [List.length_take]
      omega
    · rw [← List.take_append_drop limit (dueFirst now db ok), List.pairwise_append] at hsorted
      exact hsorted.2.2 m' hm' m hdrop

/-! ## Schedules -/

/-- What the environment chooses at a statement: the time, and whether the provider raises. -/
structure Choice where
  time : ℕ
  exc : Option Str := none

def answer : (o : Op) → Db → Choice → Option (Resp o)
  | .now, _, c => some c.time
  | .claimDue limit now, db, _ => some ((dueFirst now db fun _ => true).take limit)
  | .send _, _, c =>
    match c.exc with
    | none => some (.ok ())
    | some exc => some (.error exc)
  | .get id, db, _ => some (db.row id)
  | .update _, _, c => some c.time
  | .insert userId recipientEmail template payload, db, c =>
    if db.row c.time = none then some (.new c.time userId recipientEmail template payload c.time) else none
  | .deleteUser userId, db, _ => some (db.scan fun m => m.userId = some userId)

theorem answer_sound {o : Op} {c : Choice} {r : Resp o} (free : Uuid → Prop) (h : answer o db c = some r) :
    reply o db free r := by
  cases o with
  | claimDue limit now =>
    cases h
    exact claims_dueFirst (fun _ _ => rfl) limit
  | insert userId recipientEmail template payload =>
    dsimp only [answer] at h
    split at h
    · rename_i hn
      cases h
      exact ⟨_, _, rfl, hn⟩
    · cases h
  | get id =>
    cases h
    rfl
  | deleteUser userId =>
    cases h
    rfl
  | _ => trivial

def player : Player store Choice := ⟨fun o db _ c => answer o db c, fun free h => answer_sound free h⟩

/-- A sender and three workers. -/
inductive Party where
  | sender
  | first
  | second
  | third
  deriving DecidableEq

instance : Fintype Party := ⟨{.sender, .first, .second, .third}, fun x => by cases x <;> decide⟩

def sampleJob : Party → Job
  | .sender => .add [⟨none, "ada@example.com", "verification_email", [(ofString "token", .str (ofString "t"))]⟩]
  | _ => .dispatchOutbox

open Move in
/-- The provider turns the message down, then accepts it from a worker that crashes, then accepts it again. -/
def sampleSchedule : List (Move Party Choice) :=
  [go .sender ⟨7, none⟩, go .sender ⟨7, none⟩, go .sender ⟨7, none⟩,
    go .first ⟨10, none⟩, go .first ⟨10, none⟩, go .first ⟨10, some (ofString "timeout")⟩, go .first ⟨11, none⟩,
    go .first ⟨12, none⟩, go .first ⟨12, none⟩, go .first ⟨12, none⟩, go .first ⟨12, none⟩,
    go .second ⟨70000000, none⟩, go .second ⟨70000000, none⟩, go .second ⟨70000001, none⟩, crash .second,
    go .third ⟨80000000, none⟩, go .third ⟨80000000, none⟩, go .third ⟨80000001, none⟩, go .third ⟨80000002, none⟩,
    go .third ⟨80000002, none⟩, go .third ⟨80000002, none⟩, go .third ⟨80000002, none⟩]

end Bekaa3D.Jobs
