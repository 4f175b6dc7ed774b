import ControlPlane.Proofs.Counters
import ControlPlane.Proofs.Occupancy

/-!
# Accounts

The counters of a store are incremented apart from what they count: a record is written here and
counted there, and a watch may end at a commit, at a poll, at the shutdown, or at the hands of its
consumer. An *account* is all that can be read off about the kinds of one name, and each step of a
table changes its account in a balanced way: what a counter gains is what the objects, the live
watches and the queues gain or lose.

* `Account.Balances`: from one account to another, with the watches opened, the watches ended by
  their consumers and the events queued in between.
* `Table.arrivals`: the events that came into the queues of a table.
* `Focus.balances_enter`, `Focus.Commits.accounts`: commits balance.
* `Focus.accounts_enlist`, `Focus.accounts_poll`, `Focus.accounts_stopWatch`,
  `Focus.accounts_dropWatch`: so does all that happens to single watches.
-/

namespace ControlPlane

/-! ## Accounts -/

/-- What can be read off a store about the kinds of one name, and the mutations of all kinds. -/
structure Account where
  version : Nat
  mutations : Nat
  created : Nat
  deleted : Nat
  objects : Nat
  /-- The watches that are live. -/
  registered : Nat
  closed : Nat
  delivered : Nat

namespace Account

/-- One account follows from another if some watches were opened, some were ended by their
consumers, and some events were queued. -/
structure Balances (before : Account) (opened ended queued : Nat) (after : Account) : Prop where
  mutations : after.mutations + before.version = before.mutations + after.version
  objects : after.created + before.deleted + before.objects =
    before.created + after.deleted + after.objects
  watches : after.registered + after.closed + ended = before.registered + before.closed + opened
  events : after.delivered = before.delivered + queued

theorem Balances.refl (a : Account) : a.Balances 0 0 0 a := ⟨rfl, rfl, rfl, rfl⟩

theorem Balances.trans {a b c : Account} {opened opened' ended ended' queued queued' : Nat}
    (h : a.Balances opened ended queued b) (h' : b.Balances opened' ended' queued' c) :
    a.Balances (opened + opened') (ended + ended') (queued + queued') c where
  mutations := by have := h.mutations; have := h'.mutations; omega
  objects := by have := h.objects; have := h'.objects; omega
  watches := by have := h.watches; have := h'.watches; omega
  events := by have := h.events; have := h'.events; omega

end Account

/-- What can be read off the counters, next to what is there. -/
def Account.read (version : Version) (counters : Counters) (kind : String)
    (objects registered : Nat) : Account where
  version := version
  mutations := counters.sum Counter.isMutation
  created := counters.count (.mutations kind .create)
  deleted := counters.count (.mutations kind .delete)
  objects := objects
  registered := registered
  closed := counters.sum (Counter.isClosing kind)
  delivered := counters.count (.delivered kind)

/-- What a table is in a total of the tables of one name. -/
def Table.share (t : Table) (kind : String) (measure : TableSize → Nat) : Nat :=
  if t.name = kind then measure t.size else 0

/-- The account of a table in focus. -/
def Focus.account (f : Focus) (kind : String) : Account :=
  .read f.version f.counters kind (f.table.share kind (·.objects)) (f.table.share kind (·.watchers))

theorem Table.size_watchers (t : Table) : t.size.watchers = t.watches.countP Watch.isLive :=
  List.countP_eq_length_filter.symm

/-! ## What a broadcast does to the watches of a table -/

namespace Watch

variable (d : Definition) (capacity now : Nat) (version : Version) (c : Change)

/-- A broadcast passes a watch over, or closes it if it is live, or puts one event in its queue. -/
theorem receive_cases (w : Watch) :
    w.receive d capacity now version c = (w, .skipped) ∨
    (w.isLive = true ∧ ∃ reason,
      w.receive d capacity now version c = (w.close (some reason), .closed reason)) ∨
    ∃ e, w.receive d capacity now version c =
      ({ w with queue := w.queue ++ [e] }, .queued) := by
  cases hphase : w.phase with
  | ended reason => exact Or.inl (receive_ended hphase)
  | live =>
    have hlive : w.isLive = true := by simp [isLive, hphase]
    rw [receive_live hphase]
    by_cases hdeadline : w.deadline ≤ now
    · rw [if_pos hdeadline]
      exact Or.inr (Or.inl ⟨hlive, _, rfl⟩)
    · rw [if_neg hdeadline]
      cases w.selection.event? d version c with
      | none => exact Or.inl rfl
      | some e =>
        dsimp only
        by_cases hroom : w.queue.length < max capacity 1
        · rw [if_pos hroom]
          exact Or.inr (Or.inr ⟨e, by rw [← hphase]⟩)
        · rw [if_neg hroom]
          exact Or.inr (Or.inl ⟨hlive, _, rfl⟩)

theorem isLive_close (w : Watch) (reason : Option EndReason) : (w.close reason).isLive = false := by
  simpa [isLive] using w.close_phase reason

/-- A watch that was live is live after a broadcast or was closed by it. -/
theorem countP_isLive_receive (watches : List Watch) :
    (watches.map fun w => (w.receive d capacity now version c).1).countP isLive +
      (watches.map fun w => (w.receive d capacity now version c).2).countP (·.isClosed) =
      watches.countP isLive := by
  induction watches with
  | nil => rfl
  | cons w watches ih =>
    simp only [List.map_cons, List.countP_cons]
    rcases w.receive_cases d capacity now version c with h | ⟨hlive, reason, h⟩ | ⟨e, h⟩
    · simp only [h, Delivery.isClosed_skipped, Bool.false_eq_true, if_false]
      omega
    · simp only [h, isLive_close, hlive, Delivery.isClosed_closed, Bool.false_eq_true, if_false,
        if_true]
      omega
    · have hsame : ({ w with queue := w.queue ++ [e] } : Watch).isLive = w.isLive := rfl
      simp only [h, hsame, Delivery.isClosed_queued, Bool.false_eq_true, if_false]
      omega

/-- Queues get longer by what was queued. -/
theorem sum_queue_receive (watches : List Watch) :
    ((watches.map fun w => (w.receive d capacity now version c).1).map (·.queue.length)).sum =
      (watches.map (·.queue.length)).sum +
        (watches.map fun w => (w.receive d capacity now version c).2).countP (· = .queued) := by
  induction watches with
  | nil => rfl
  | cons w watches ih =>
    simp only [List.map_cons, List.sum_cons, List.countP_cons, ih]
    rcases w.receive_cases d capacity now version c with h | ⟨-, reason, h⟩ | ⟨e, h⟩
    · rw [h]
      simp only [reduceCtorEq, decide_false, Bool.false_eq_true, if_false]
      omega
    · rw [h]
      simp only [close_queue, reduceCtorEq, decide_false, Bool.false_eq_true, if_false]
      omega
    · rw [h]
      simp only [List.length_append, List.length_singleton, decide_true, if_true]
      omega

theorem queue_prefix_receive (w : Watch) :
    w.queue <+: (w.receive d capacity now version c).1.queue := by
  rcases w.receive_cases d capacity now version c with h | ⟨-, reason, h⟩ | ⟨e, h⟩
  · simp only [h, List.prefix_rfl]
  · simp only [h, close_queue, List.prefix_rfl]
  · simp only [h, List.prefix_append]

end Watch

/-! ## Commits -/

/-- The verb is the one under which such a change is counted. -/
inductive Verb.Suits : Verb → Change → Prop
  | create (new : Object) : Suits .create (.created new)
  | update (old new : Object) : Suits .update (.updated old new)
  | patch (old new : Object) : Suits .patch (.updated old new)
  | delete (tombstone : Object) : Suits .delete (.deleted tombstone)

/-- A commit makes one record more, or as many, or one less, as its verb says. -/
theorem Commit.length_write {c : Commit} {d : Definition} {records : SortedMap Key Record}
    (hfits : c.Fits d records) (hsorted : SortedMap.Sorted records) {verb : Verb}
    (hsuits : verb.Suits c.change) :
    (c.write records).length + (if verb = .delete then 1 else 0) =
      records.length + (if verb = .create then 1 else 0) := by
  have hchange : c.change.Fits d records c.version c.key := hfits
  unfold Commit.write
  generalize c.change = change at hchange hsuits ⊢
  cases hchange with
  | created hget _ =>
    cases hsuits
    simpa using SortedMap.length_insert_of_none hget _
  | updated hget _ =>
    have hlength := SortedMap.length_insert_of_some hsorted hget
    cases hsuits <;> simpa using hlength _
  | deleted hget _ =>
    cases hsuits
    simpa using SortedMap.length_erase_of_some hsorted hget

/-- How many events are in the queues of a table. -/
def Table.waiting (t : Table) : Nat := (t.watches.map (·.queue.length)).sum

namespace Focus

variable {f f' : Focus}

/-- **A commit balances.** -/
theorem balances_enter {now : Nat} {verb : Verb} {c : Commit} (hsuits : verb.Suits c.change)
    (hfits : c.Fits f.table.definition f.table.records)
    (hsorted : SortedMap.Sorted f.table.records) (kind : String) :
    (f.account kind).Balances 0 0
      (if f.table.name = kind then (f.deliveries now c.change).countP (· = .queued) else 0)
      ((f.enter now verb c).account kind) where
  mutations := by
    simp only [account, Account.read, mutations_enter, enter_version, Version.next]
    omega
  objects := by
    have hlength := Commit.length_write hfits hsorted hsuits
    have hname : (f.enter now verb c).table.name = f.table.name := rfl
    simp only [account, Account.read, count_mutations_enter, Table.share, hname, Table.size,
      enter_records]
    by_cases hk : f.table.name = kind
    · simp only [hk, true_and, if_true]
      omega
    · simp only [hk, false_and, if_false]
      omega
  watches := by
    have hlive := Watch.countP_isLive_receive f.table.definition f.limits.queueCapacity now
      f.version.next c.change f.table.watches
    have hname : (f.enter now verb c).table.name = f.table.name := rfl
    simp only [account, Account.read, closings_enter, Table.share, hname, Table.size_watchers,
      enter_watches, deliveries]
    split <;> omega
  events := f.count_delivered_enter now verb c kind

theorem Commits.queues {i now : Nat} {verb : Verb} {log : List Commit}
    (h : Commits i now verb f log f') :
    ∃ g : Watch → Watch, f'.table.watches = f.table.watches.map g ∧
      ∀ w, (g w).id = w.id ∧ w.queue <+: (g w).queue := by
  induction h with
  | nil f => exact ⟨id, (List.map_id _).symm, fun w => ⟨rfl, List.prefix_rfl⟩⟩
  | @cons f f' c log _ _ _ _ ih =>
    obtain ⟨g, hwatches, hg⟩ := ih
    rw [enter_watches, List.map_map] at hwatches
    refine ⟨_, hwatches, fun w => ⟨?_, ?_⟩⟩
    · exact (hg _).1.trans (w.receive_id ..)
    · exact (w.queue_prefix_receive ..).trans (hg _).2

/-- **Commits balance**, and what they count as queued is what the queues got. -/
theorem Commits.balances {i now : Nat} {verb : Verb} {log : List Commit}
    (h : Commits i now verb f log f') (hsuits : ∀ c ∈ log, verb.Suits c.change)
    (hsorted : SortedMap.Sorted f.table.records) (kind : String) :
    ∃ n, f'.table.waiting = f.table.waiting + n ∧
      (f.account kind).Balances 0 0 (if f.table.name = kind then n else 0) (f'.account kind) := by
  -- Each commit finds the watches as the one before left them, and its queues only grow.
  induction h with
  | nil f =>
    refine ⟨0, rfl, ?_⟩
    rw [ite_self]
    exact .refl _
  | @cons f f' c log _ _ hfits _ ih =>
    obtain ⟨n, hn, hrest⟩ := ih (fun c hc => hsuits c (List.mem_cons_of_mem _ hc))
      (c.sorted_write hsorted)
    have hfirst : (f.account kind).Balances 0 0
        (if f.table.name = kind then (f.deliveries now c.change).countP (· = .queued) else 0)
        ((f.enter now verb c).account kind) :=
      balances_enter (hsuits c List.mem_cons_self) hfits hsorted kind
    have hqueued : (f.enter now verb c).table.waiting =
        f.table.waiting + (f.deliveries now c.change).countP (· = .queued) := by
      rw [Table.waiting, enter_watches]
      exact Watch.sum_queue_receive ..
    refine ⟨_, by rw [hn, hqueued, Nat.add_assoc], ?_⟩
    have hboth := hfirst.trans hrest
    rw [show (f.enter now verb c).table.name = f.table.name from rfl] at hboth
    split at hboth
    · next hk => rwa [if_pos hk]
    · next hk => rwa [if_neg hk]

end Focus

/-! ## What came into the queues -/

namespace Table

/-- The watches of a table have different numbers. -/
def UniqueIds (t : Table) : Prop := (t.watches.map (·.id)).Nodup

/-- How many events the queue of a watch holds. -/
def queued (t : Table) (id : Nat) : Nat := ((t.watch? id).map (·.queue.length)).getD 0

/-- The events that came into the queues between two states of a table: what a queue holds behind
the events that it held. -/
def arrivals (t t' : Table) : List Event :=
  t'.watches.flatMap fun w => w.queue.drop (t.queued w.id)

/-- The watch of a number is there and live. -/
def hasLive (t : Table) (id : Nat) : Bool := (t.watch? id).any Watch.isLive

variable {t t' : Table} {w : Watch}

theorem watch?_of_mem (h : t.UniqueIds) (hw : w ∈ t.watches) : t.watch? w.id = some w := by
  unfold UniqueIds at h
  unfold watch?
  generalize t.watches = watches at h hw
  induction watches with
  | nil => cases hw
  | cons v watches ih =>
    rw [List.map_cons, List.nodup_cons] at h
    rcases List.mem_cons.mp hw with rfl | hw
    · exact List.find?_cons_of_pos (by simp)
    · have hne : v.id ≠ w.id := fun hid => h.1 (hid ▸ List.mem_map_of_mem hw)
      rw [List.find?_cons_of_neg (by simpa using hne)]
      exact ih h.2 hw

theorem queued_of_mem (h : t.UniqueIds) (hw : w ∈ t.watches) : t.queued w.id = w.queue.length := by
  rw [queued, watch?_of_mem h hw]
  rfl

theorem uniqueIds_map {g : Watch → Watch} (h : t.UniqueIds) (hg : ∀ w, (g w).id = w.id)
    (hwatches : t'.watches = t.watches.map g) : t'.UniqueIds := by
  rw [UniqueIds, hwatches, List.map_map]
  exact (List.map_congr_left fun w _ => hg w) ▸ h

/-- A watch is the only one of its number. -/
theorem exists_split (h : t.UniqueIds) (hw : w ∈ t.watches) :
    ∃ left right, t.watches = left ++ w :: right ∧ ∀ v ∈ left ++ right, v.id ≠ w.id := by
  obtain ⟨left, right, hwatches⟩ := List.append_of_mem hw
  refine ⟨left, right, hwatches, fun v hv hid => ?_⟩
  rw [UniqueIds, hwatches, List.map_append, List.map_cons] at h
  have hnot := (List.nodup_cons.mp (List.nodup_middle.mp h)).1
  rw [← List.map_append] at hnot
  exact hnot (hid ▸ List.mem_map_of_mem hv)

/-- A watch is put in the place of its earlier state. -/
theorem countP_setWatch (ht : t.UniqueIds) {before after : Watch}
    (hbefore : before ∈ t.watches) (hid : after.id = before.id) :
    (t.setWatch after).watches.countP Watch.isLive + (if before.isLive then 1 else 0) =
      t.watches.countP Watch.isLive + (if after.isLive then 1 else 0) := by
  obtain ⟨left, right, hwatches, hne⟩ := exists_split ht hbefore
  have hkeep (part : List Watch) (hpart : ∀ v ∈ part, v.id ≠ before.id) :
      (part.map fun v => if v.id = after.id then after else v) = part := by
    refine (List.map_congr_left fun v hv => ?_).trans (List.map_id _)
    rw [hid, if_neg (hpart v hv), id]
  rw [setWatch, hwatches, List.map_append, List.map_cons, hid.symm,
    hkeep left fun v hv => hne v (List.mem_append_left _ hv),
    hkeep right fun v hv => hne v (List.mem_append_right _ hv)]
  simp only [if_true, List.countP_append, List.countP_cons]
  omega

theorem mem_setWatch {v after : Watch} (hv : v ∈ (t.setWatch after).watches) :
    v = after ∨ v ∈ t.watches := by
  obtain ⟨v', hv', rfl⟩ := List.mem_map.mp hv
  split
  · exact Or.inl rfl
  · exact Or.inr hv'

/-- Nothing came into queues that hold no more than before. -/
theorem arrivals_eq_nil (h : ∀ w ∈ t'.watches, w.queue.length ≤ t.queued w.id) :
    t.arrivals t' = [] :=
  List.flatMap_eq_nil_iff.mpr fun w hw => List.drop_of_length_le (h w hw)

/-- Queues that only grow hold what they held and what came in. -/
theorem length_arrivals {g : Watch → Watch} (h : t.UniqueIds)
    (hwatches : t'.watches = t.watches.map g)
    (hg : ∀ w, (g w).id = w.id ∧ w.queue <+: (g w).queue) :
    (t.arrivals t').length + t.waiting = t'.waiting := by
  -- Numbers are looked up in the whole table, so that is settled before the induction on it.
  have hqueued (w : Watch) (hw : w ∈ t.watches) : t.queued (g w).id = w.queue.length := by
    rw [(hg w).1, queued_of_mem h hw]
  rw [arrivals, waiting, waiting, hwatches]
  clear h hwatches
  generalize t.queued = queued at hqueued ⊢
  generalize t.watches = watches at hqueued ⊢
  induction watches with
  | nil => rfl
  | cons w watches ih =>
    have hrest := ih fun w hw => hqueued w (List.mem_cons_of_mem _ hw)
    have hlength := (hg w).2.length_le
    simp only [List.map_cons, List.flatMap_cons, List.sum_cons, List.length_append,
      hqueued w List.mem_cons_self, List.length_drop] at hrest ⊢
    omega

end Table

/-! ## One step of a table -/

/-- How a watch turns into its next state, and how many watches are ended by that other than by the
server. -/
inductive Watch.Turns (before after : Watch) : Nat → Prop
  | same : after.phase = before.phase → Turns before after 0
  | closed {reason : EndReason} : before.phase = .live → after.phase = .ended (some reason) →
      Turns before after 0
  | stopped : before.phase = .live → after.phase = .ended none → Turns before after 1

namespace Watch

/-- Taking an item leaves the phase of a watch. -/
theorem take_phase (w : Watch) : w.take.2.phase = w.phase := by
  unfold take
  split
  · rfl
  · split <;> rfl

/-- A poll makes no queue longer. -/
theorem poll_queue_length (w : Watch) (now : Nat) :
    (w.poll now).2.queue.length ≤ w.queue.length := by
  have hexpire : (w.expire now).queue = w.queue := by
    unfold expire
    split
    · rfl
    · exact w.close_queue _
  exact hexpire ▸ (w.expire now).take_queue_suffix.length_le

/-- A poll ends a watch only as the server does. -/
theorem turns_poll (w : Watch) (now : Nat) :
    w.Turns (w.poll now).2 0 := by
  have htake : (w.poll now).2.phase = (w.expire now).phase := take_phase _
  unfold expire at htake
  split at htake
  · exact .same htake
  · cases hphase : w.phase with
    | live =>
      rw [close_live hphase] at htake
      exact .closed hphase htake
    | ended reason =>
      rw [close_ended hphase] at htake
      exact .same htake

/-- Its consumer ends a watch that is live, and no other. -/
theorem turns_stop (w : Watch) :
    w.Turns (w.close none) (if w.isLive then 1 else 0) := by
  cases hphase : w.phase with
  | live =>
    rw [if_pos (by simp [isLive, hphase])]
    exact .stopped hphase (by rw [close_live hphase])
  | ended reason =>
    rw [if_neg (by simp [isLive, hphase])]
    exact .same (by rw [close_ended hphase])

end Watch

namespace Focus

/-- What a step of a table does: it balances, and the watches have different numbers afterwards. -/
structure Accounts (f : Focus) (kind : String) (opened ended : Nat) (f' : Focus) : Prop where
  balances : (f.account kind).Balances opened ended
    (if f.table.name = kind then (f.table.arrivals f'.table).length else 0) (f'.account kind)
  uniqueIds : f'.table.UniqueIds

variable {f f' : Focus} {kind : String} {opened ended : Nat} {w : Watch}

theorem Still.name_eq (h : f.Still f') : f'.table.name = f.table.name :=
  congrArg Definition.name h.definition_eq

/-- Watches that are opened, and watches that end other than by the server, are not counted. -/
theorem Still.balances (h : f.Still f') (opened ended : Nat) (hcounters : f'.counters = f.counters)
    (hwatches : f'.table.watches.countP Watch.isLive + ended =
      f.table.watches.countP Watch.isLive + opened) (kind : String) :
    (f.account kind).Balances (if f.table.name = kind then opened else 0)
      (if f.table.name = kind then ended else 0) 0 (f'.account kind) where
  mutations := by simp only [account, Account.read, hcounters, h.version_eq]
  objects := by
    simp only [account, Account.read, hcounters, Table.share, Table.size, h.name_eq, h.records_eq]
  watches := by
    simp only [account, Account.read, hcounters, Table.share, h.name_eq, Table.size_watchers]
    split <;> omega
  events := by simp only [account, Account.read, hcounters, Nat.add_zero]

/-- A watch that was closed is counted. -/
theorem Still.balances_closed (h : f.Still f') {reason : EndReason}
    (hcounters : f'.counters = f.counters.add (.closed f.table.name reason) 1)
    (hwatches : f'.table.watches.countP Watch.isLive + 1 = f.table.watches.countP Watch.isLive)
    (kind : String) : (f.account kind).Balances 0 0 0 (f'.account kind) where
  mutations := by
    simp [account, Account.read, hcounters, h.version_eq, Counters.reads_sum _ _ _ _,
      Counter.isMutation]
  objects := by
    simp [account, Account.read, hcounters, Table.share, Table.size, h.name_eq, h.records_eq,
      Counters.reads_count _ _ _ _]
  watches := by
    simp only [account, Account.read, hcounters, Table.share, h.name_eq, Table.size_watchers,
      Counters.reads_sum _ _ _ _, Counter.isClosing, decide_eq_true_eq]
    split <;> omega
  events := by
    simp [account, Account.read, hcounters, Counters.reads_count _ _ _ _]

/-- A step that puts nothing in a queue. -/
theorem Accounts.of_no_arrivals (hunique : f'.table.UniqueIds)
    (hqueues : ∀ w ∈ f'.table.watches, w.queue.length ≤ f.table.queued w.id)
    (hbalances : (f.account kind).Balances opened ended 0 (f'.account kind)) :
    f.Accounts kind opened ended f' where
  balances := by
    rw [Table.arrivals_eq_nil hqueues, List.length_nil, ite_self]
    exact hbalances
  uniqueIds := hunique

theorem accounts_self (hf : f.table.UniqueIds) (kind : String) : f.Accounts kind 0 0 f :=
  .of_no_arrivals hf (fun _ hw => Nat.le_of_eq (Table.queued_of_mem hf hw).symm) (.refl _)

theorem Commits.accounts {i now : Nat} {verb : Verb} {log : List Commit}
    (h : Commits i now verb f log f') (hsuits : ∀ c ∈ log, verb.Suits c.change)
    (hsorted : SortedMap.Sorted f.table.records) (hf : f.table.UniqueIds) (kind : String) :
    f.Accounts kind 0 0 f' := by
  obtain ⟨g, hwatches, hg⟩ := h.queues
  obtain ⟨n, hn, hbalances⟩ := h.balances hsuits hsorted kind
  have harrivals : (f.table.arrivals f'.table).length = n := by
    have := Table.length_arrivals hf hwatches hg
    omega
  exact ⟨harrivals ▸ hbalances, Table.uniqueIds_map hf (fun w => (hg w).1) hwatches⟩

/-- **A watch that is opened is registered.** -/
theorem accounts_enlist (hf : f.table.UniqueIds) (hnumbered : f.table.Numbered)
    (hid : w.id = f.table.nextWatch) (hlive : w.isLive = true) (hqueue : w.queue = [])
    (kind : String) :
    f.Accounts kind (if f.table.name = kind then 1 else 0) 0 (f.enlist w) := by
  have hwatches : (f.enlist w).table.watches = f.table.watches ++ [w] := rfl
  have hlength : (f.enlist w).table.watches.countP Watch.isLive + 0 =
      f.table.watches.countP Watch.isLive + 1 := by
    rw [hwatches, List.countP_append, List.countP_singleton, if_pos hlive, Nat.add_zero]
  refine .of_no_arrivals ?_ (fun w' hw' => ?_) ?_
  · rw [Table.UniqueIds, hwatches, List.map_append, List.nodup_append_comm]
    refine List.nodup_cons.mpr ⟨fun hmem => ?_, hf⟩
    obtain ⟨w', hw', hsame⟩ := List.mem_map.mp hmem
    exact Nat.ne_of_lt (hnumbered w' hw') (hsame.trans hid)
  · rw [hwatches, List.mem_append, List.mem_singleton] at hw'
    rcases hw' with hw' | rfl
    · exact Nat.le_of_eq (Table.queued_of_mem hf hw').symm
    · simp [hqueue]
  · have hbalances := (f.still_enlist w hid).balances 1 0 rfl hlength kind
    rwa [ite_self] at hbalances

/-- **What happens to a single watch balances**, if its queue gets no longer. -/
theorem accounts_settle (hf : f.table.UniqueIds) {id : Nat} {before after : Watch}
    (hbefore : f.table.watch? id = some before) (hid : after.id = before.id)
    (hqueue : after.queue.length ≤ before.queue.length) (hturns : before.Turns after ended)
    (kind : String) :
    f.Accounts kind 0 (if f.table.name = kind then ended else 0) (f.settle before after) := by
  have hmem := List.mem_of_find?_eq_some hbefore
  -- No other watch has its number, so the live watches are those before, but for this one.
  have hlive := Table.countP_setWatch hf hmem hid
  have hunique : (f.settle before after).table.UniqueIds :=
    Table.uniqueIds_map hf (fun v => by split <;> simp_all) rfl
  refine .of_no_arrivals hunique (fun v hv => ?_) ?_
  · rcases Table.mem_setWatch hv with rfl | hv
    · rwa [hid, Table.queued_of_mem hf hmem]
    · exact Nat.le_of_eq (Table.queued_of_mem hf hv).symm
  · have hstill := f.still_settle hid
    cases hturns with
    | same hphase =>
      have hsame : after.isLive = before.isLive := by simp only [Watch.isLive, hphase]
      have hcounters : (f.settle before after).counters = f.counters := by
        simp only [settle, hphase]
        cases before.phase <;> rfl
      rw [hsame] at hlive
      have hbalances := hstill.balances 0 0 hcounters (Nat.add_right_cancel hlive) kind
      rwa [ite_self] at hbalances ⊢
    | @closed reason hlive' hended =>
      have hcounters : (f.settle before after).counters =
          f.counters.add (.closed f.table.name reason) 1 := by simp only [settle, hlive', hended]
      simp only [Watch.isLive, hlive', hended] at hlive
      rw [ite_self]
      exact hstill.balances_closed hcounters hlive kind
    | stopped hlive' hended =>
      have hcounters : (f.settle before after).counters = f.counters := by
        simp only [settle, hlive', hended]
      simp only [Watch.isLive, hlive', hended] at hlive
      have hbalances := hstill.balances 0 1 hcounters hlive kind
      rwa [ite_self] at hbalances

theorem accounts_poll (hf : f.table.UniqueIds) (now id : Nat) (kind : String) :
    f.Accounts kind 0 0 (f.poll now id).2 := by
  unfold poll
  cases hw : f.table.watch? id with
  | none => exact accounts_self hf kind
  | some w =>
    have haccounts := accounts_settle hf hw (w.poll_id now) (w.poll_queue_length now)
      (w.turns_poll now) kind
    rwa [ite_self] at haccounts

theorem accounts_stopWatch (hf : f.table.UniqueIds) (id : Nat) (kind : String) :
    f.Accounts kind 0 (if f.table.name = kind ∧ f.table.hasLive id then 1 else 0)
      (f.stopWatch id) := by
  unfold stopWatch Table.hasLive
  cases hw : f.table.watch? id with
  | none => simpa using accounts_self hf kind
  | some w =>
    have haccounts := accounts_settle hf hw (w.close_id none) (by simp)
      w.turns_stop kind
    simpa only [Option.any_some, ite_and] using haccounts

/-- A watch is taken out of its table. -/
theorem countP_dropWatch (hf : f.table.UniqueIds) (id : Nat) :
    (f.dropWatch id).table.watches.countP Watch.isLive +
      (if f.table.hasLive id then 1 else 0) = f.table.watches.countP Watch.isLive := by
  have hfilter : (f.dropWatch id).table.watches = f.table.watches.filter (·.id ≠ id) := rfl
  rw [hfilter, Table.hasLive]
  cases hw : f.table.watch? id with
  | none =>
    have hall : f.table.watches.filter (fun w => decide (w.id ≠ id)) = f.table.watches := by
      refine List.filter_eq_self.mpr fun w hw' => ?_
      simpa using List.find?_eq_none.mp hw w hw'
    rw [hall]
    rfl
  | some w =>
    obtain ⟨left, right, hwatches, hne⟩ :=
      Table.exists_split hf (List.mem_of_find?_eq_some hw)
    have hkeep (part : List Watch) (hpart : ∀ v ∈ part, v.id ≠ w.id) :
        part.filter (fun v => decide (v.id ≠ w.id)) = part :=
      List.filter_eq_self.mpr fun v hv => by simpa using hpart v hv
    rw [← Table.watch?_id hw, hwatches, List.filter_append, List.filter_cons_of_neg (by simp),
      hkeep left fun v hv => hne v (List.mem_append_left _ hv),
      hkeep right fun v hv => hne v (List.mem_append_right _ hv)]
    simp only [Option.any_some, List.countP_append, List.countP_cons]
    omega

theorem accounts_dropWatch (hf : f.table.UniqueIds) (id : Nat) (kind : String) :
    f.Accounts kind 0 (if f.table.name = kind ∧ f.table.hasLive id then 1 else 0)
      (f.dropWatch id) := by
  have hlength : (f.dropWatch id).table.watches.countP Watch.isLive +
      (if f.table.hasLive id then 1 else 0) = f.table.watches.countP Watch.isLive + 0 :=
    countP_dropWatch hf id
  have hbalances := (f.still_dropWatch id).balances 0 _ rfl hlength kind
  rw [ite_self, ← ite_and] at hbalances
  refine .of_no_arrivals (hf.sublist (List.filter_sublist.map _)) (fun w hw => ?_) hbalances
  exact Nat.le_of_eq (Table.queued_of_mem hf (List.mem_filter.mp hw).1).symm

end Focus

end ControlPlane
