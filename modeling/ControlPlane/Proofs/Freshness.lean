import ControlPlane.Proofs.Delivery
import ControlPlane.Proofs.Dropped

/-!
# How new what a watch delivers is

A watch that resumes from a version replays what is later than that version, and is broadcast what
is later than the store was when it was opened. If the version is one that the store has reached,
everything it delivers is therefore later than the version. If it lies ahead of the store, as one
kept from another store may, nothing is replayed, but what is broadcast is not compared with it.

* `Store.Follows.replayed_later`, `Store.Follows.broadcast_later`: how new the two parts are.
* `Store.delivered_later`: how new everything is that a watch delivers, in any run.
* `Store.delivered_from_ahead`: a watch from ahead of the store delivers what is not later.
-/

namespace ControlPlane

namespace Store

variable {s s' : Store} {log : List Commit} {i : Nat} {t : Table} {x : Selection} {since : Version}
  {events : List Event}

/-- **What a watch yields is a beginning of what it was to see**, whether or not it is dropped. -/
theorem Watches.yielded_begins (hs : s.Follows log) {h : WatchHandle} {w : Watch}
    (hw : s.Watches i h t w) (hopen : w.Open) (actions : List Action) :
    Watch.yielded (s.items h actions) <+:
      w.held ++ seen w.selection t.definition (ofTable i (s.log actions)) := by
  obtain ⟨kept, ⟨rest, rfl⟩, hkept, hyielded⟩ := hw.yielded_kept hs actions
  have hgapless : Watch.yielded (w.items t.definition s.limits.queueCapacity (s.feed i h kept)) <+:
      w.held ++ Watch.observed w.selection t.definition (s.feed i h kept) :=
    (Watch.faithful hopen _).gapless
  rw [observed_feed, ← (hw.fed_run hs kept hkept).2] at hgapless
  rw [hyielded, log_append, ofTable_append, seen_append, ← List.append_assoc]
  exact hgapless.trans (List.prefix_append ..)

/-- What is replayed is later than the version that is resumed from. -/
theorem Follows.replayed_later (hs : s.Follows log) (ht : s.tables[i]? = some t)
    (h : t.initialEvents x (some since) = .ok events) {e : Event} (he : e ∈ events) :
    since < e.version := by
  rw [hs.resumed ht h] at he
  obtain ⟨c, hc, hversion⟩ := version_of_mem_seen he
  rw [← hversion]
  simpa using (List.mem_filter.mp hc).2

/-- A version that the store has not passed replays nothing. -/
theorem Follows.replayed_eq_nil (hs : s.Follows log) (ht : s.tables[i]? = some t)
    (h : t.initialEvents x (some since) = .ok events) (hsince : s.version ≤ since) :
    events = [] := by
  have hnone : (ofTable i log).filter (fun c => since < c.version) = [] := by
    refine List.filter_eq_nil_iff.mpr fun c hc => ?_
    have hle := hs.version_le (List.mem_filter.mp hc).1
    simpa using Nat.le_trans hle hsince
  rw [hs.resumed ht h, hnone]
  rfl

/-- What is broadcast is later than the store was before. -/
theorem Follows.broadcast_later (hs : s.Follows log) {later : List Commit}
    (hs' : s'.Follows (log ++ later)) {d : Definition} {e : Event}
    (he : e ∈ seen x d (ofTable i later)) : s.version < e.version := by
  obtain ⟨c, hc, hversion⟩ := version_of_mem_seen he
  rw [← hversion]
  exact hs.version_lt hs' (List.mem_filter.mp hc).1

/-- **What a watch delivers is later than the version it resumes from, or than the store was when it
was opened**: the one holds for what it replays, the other for what it is broadcast. If the store
had reached the version, all of it is later than the version. -/
theorem delivered_later (catalog : Catalog) (limits : WatchLimits) (before after : List Action)
    {kind : String} {scope : Scope} {m : Moment} {criteria : Criteria} {timeout : Option Nat}
    {since : Version} {h : WatchHandle} {s s' : Store}
    (hs : s = (empty catalog limits).run before)
    (hopen : s.act (watchFrom kind scope m criteria timeout since) =
      (.answer (.ok (.watching h)), s')) :
    (∃ replayed broadcast, (s'.watch? h).map Watch.initial = some replayed ∧
      Watch.yielded (s'.items h after) <+: replayed ++ broadcast ∧
      (∀ e ∈ replayed, since < e.version) ∧ (s.version ≤ since → replayed = []) ∧
      ∀ e ∈ broadcast, s.version < e.version) ∧
    (since ≤ s.version → ∀ e ∈ Watch.yielded (s'.items h after), since < e.version) := by
  have hfollows := follows_reached catalog limits before
  rw [← hs] at hfollows
  obtain ⟨i, t, events, -, ht, ho, hw⟩ := act_opened hfollows (congrArg Prod.fst hopen)
  have hfollows' := hfollows.act_watch kind scope m criteria (some since) timeout
  obtain rfl : (s.act (watchFrom kind scope m criteria timeout since)).2 = s' :=
    congrArg Prod.snd hopen
  have hevents := (opening_eq_ok_iff.mp ho).2.2
  have hbegin := hw.yielded_begins hfollows' ⟨rfl, rfl⟩ after
  rw [show (Focus.newWatch (s.focus t) scope m criteria timeout events).held = events from
    List.append_nil events] at hbegin
  have hlater := follows_run hfollows' after
  have hreplayed : ∀ e ∈ events, since < e.version := by
    intro e he
    exact hfollows.replayed_later ht hevents he
  have hbroadcast : ∀ e ∈ seen ⟨criteria, scope⟩ t.definition
      (ofTable i (Store.log (s.act (watchFrom kind scope m criteria timeout since)).2 after)),
      s.version < e.version := by
    intro e he
    exact hfollows.broadcast_later hlater he
  refine ⟨⟨events, _, ?_, ?_, hreplayed, ?_, hbroadcast⟩, ?_⟩
  · exact congrArg (Option.map Watch.initial) hw.watch?_eq
  · exact hbegin
  · exact hfollows.replayed_eq_nil ht hevents
  · intro hsince e he
    rcases List.mem_append.mp (hbegin.subset he) with he | he
    · exact hreplayed e he
    · exact Nat.lt_of_le_of_lt hsince (hbroadcast e he)

/-- A watch from the version that a store has reached. -/
theorem delivered_later_configs :
    ∃ h s', (configStore.run [createConfig "a"]).act (watchConfigs 1) =
        (.answer (.ok (.watching h)), s') ∧
      (Watch.yielded (s'.items h [createConfig "b", .poll 1 h])).map (·.version) = [2] ∧
      ∀ e ∈ Watch.yielded (s'.items h [createConfig "b", .poll 1 h]), 1 < e.version := by
  let m : Moment := ⟨0, ⟨2024, 1, 1, 0, 0, 0, 0⟩, "uid", "suffix"⟩
  have hopen : (configStore.run [createConfig "a"]).act
      (watchFrom "v1/ConfigMap" .all m .all none 1) =
        (.answer (.ok (.watching ⟨"v1/ConfigMap", 0⟩)), _) := rfl
  refine ⟨⟨"v1/ConfigMap", 0⟩, _, hopen, ?_, ?_⟩
  · decide +kernel
  · exact (delivered_later configCatalog ⟨2, 1000, 2⟩ [createConfig "a"]
      [createConfig "b", .poll 1 ⟨"v1/ConfigMap", 0⟩] rfl hopen).2 (by decide)

/-- **A watch from ahead of the store delivers what is not later**: resumed from version five in a
store without any, it delivers version one. -/
theorem delivered_from_ahead :
    ∃ h s' e, configStore.act (watchConfigs 5) = (.answer (.ok (.watching h)), s') ∧
      Watch.yielded (s'.items h [createConfig "a", .poll 1 h]) = [e] ∧
      e.version = 1 ∧ ¬ 5 < e.version :=
  ⟨⟨"v1/ConfigMap", 0⟩, _, _, rfl, rfl, rfl, by decide +kernel⟩

end Store

end ControlPlane
