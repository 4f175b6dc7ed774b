import ControlPlane.Proofs.Opening
import ControlPlane.Schema.Kinds

/-!
# What watches deliver

A watch delivers what it began with and then every later commit of its kind that it sees, in the
order of their versions, until it ends. A watch that resumes from a version therefore delivers what
it would have delivered had it been there since: when it was opened does not matter.

* `Store.opened_delivers`: what the consumer of any watch can rely on, in any run.
* `Store.Follows.received_eq`: what a watch that resumed has received is what there was to see.
* `Focus.queued_eq_replayed`: a broadcast queues the event that a replay would show.
* `Store.resumed_agree`: watches that resume from one version, at whatever times, receive the same.
-/

namespace ControlPlane

namespace Store

variable {s : Store} {log : List Commit} {i : Nat} {h : WatchHandle} {t : Table} {w : Watch}

/-! ## Any watch -/

/-- A watch delivers to its consumer, during some actions, what it is to deliver. -/
structure Delivers (s : Store) (i : Nat) (h : WatchHandle) (t : Table) (w : Watch)
    (actions : List Action) : Prop where
  /-- The consumer gets what the watch yields to its feed. -/
  items_eq : s.items h actions = w.items t.definition s.limits.queueCapacity (s.feed i h actions)
  /-- The feed has every commit of the kind, in order. -/
  observed_eq : Watch.observed w.selection t.definition (s.feed i h actions) =
    seen w.selection t.definition (ofTable i (s.log actions))
  /-- The watch keeps its promises to its consumer, whatever reaches it: that includes the feed, and
  the feed with polls between the commits of one deletion of many. -/
  faithful : ∀ inputs, w.Faithful t.definition s.limits.queueCapacity inputs
  /-- The events it is to yield ascend in version. -/
  ascending : (w.initial ++ seen w.selection t.definition (ofTable i (s.log actions))).Pairwise
    fun a b => a.version < b.version

/-- **Every watch delivers, from its opening on, whatever happens.** -/
theorem opened_delivers (catalog : Catalog) (limits : WatchLimits) (before after : List Action)
    {kind : String} {scope : Scope} {m : Moment} {criteria : Criteria} {since : Option Version}
    {timeout : Option Nat} {h : WatchHandle}
    (hopen : (((empty catalog limits).run before).act
      (.call kind scope m (.request (.watch criteria since timeout)))).1 =
        .answer (.ok (.watching h)))
    (hkept : .dropWatch h ∉ after) :
    let s := (((empty catalog limits).run before).act
      (.call kind scope m (.request (.watch criteria since timeout)))).2
    ∃ i t w, s.find kind = .ok i ∧ s.Watches i h t w ∧ w.selection = ⟨criteria, scope⟩ ∧
      t.initialEvents ⟨criteria, scope⟩ since = .ok w.initial ∧ w.queue = [] ∧
      s.Delivers i h t w after := by
  have hs := follows_reached catalog limits before
  obtain ⟨i, t, events, hfind, ht, ho, hw⟩ := act_opened hs hopen
  have hinitial := (opening_eq_ok_iff.mp ho).2.2
  have hs' := hs.act_watch kind scope m criteria since timeout
  refine ⟨i, _, _, ?_, hw, rfl, hinitial, rfl, (hw.fed_run hs' after hkept).2, ?_, ?_, ?_⟩
  · rw [(sameKinds_act hs _).find_eq, hfind]
  · exact observed_feed ..
  · exact Watch.faithful ⟨rfl, rfl⟩
  · exact hs.ascending ht hinitial (follows_run hs' after)

/-! ### A run of a small store -/

/-- A catalog of config maps alone. -/
def configCatalog : Catalog := ⟨[.ofKind Schema.configMap], [("v1/ConfigMap", 0)]⟩

/-- A store of config maps, with little room for what is not taken. -/
def configStore : Store := empty configCatalog ⟨2, 1000, 2⟩

/-- A call for config maps. -/
def configCall (r : Request) : Action :=
  .call "v1/ConfigMap" .all ⟨0, ⟨2024, 1, 1, 0, 0, 0, 0⟩, "uid", "suffix"⟩ (.request r)

/-- The creation of a config map. -/
def createConfig (name : String) : Action :=
  configCall (.create ⟨none, { Metadata.empty with name := some name, ns := some "default" }, []⟩)

/-- The watch of all config maps from a version on. -/
def watchConfigs (since : Version) : Action := configCall (.watch .all (some since) none)

theorem opened_delivers_configs :
    ((configStore.run [createConfig "a"]).act (watchConfigs 0)).1 =
        .answer (.ok (.watching ⟨"v1/ConfigMap", 0⟩)) ∧
      ∃ i t w, ((configStore.run [createConfig "a"]).act (watchConfigs 0)).2.find "v1/ConfigMap" =
          .ok i ∧
        ((configStore.run [createConfig "a"]).act (watchConfigs 0)).2.Watches i ⟨"v1/ConfigMap", 0⟩
          t w ∧ w.selection = ⟨.all, .all⟩ ∧
        t.initialEvents ⟨.all, .all⟩ (some 0) = .ok w.initial ∧ w.queue = [] ∧
        ((configStore.run [createConfig "a"]).act (watchConfigs 0)).2.Delivers i
          ⟨"v1/ConfigMap", 0⟩ t w
          [createConfig "b", .poll 1 ⟨"v1/ConfigMap", 0⟩, .shutdown, .poll 2 ⟨"v1/ConfigMap", 0⟩] :=
  ⟨rfl, opened_delivers configCatalog ⟨2, 1000, 2⟩ [createConfig "a"] _ rfl (by
    simp [createConfig, configCall])⟩

/-! ## Watches that resume -/

/-- The watch of a handle is there and broadcast to. -/
def isOpen (s : Store) (h : WatchHandle) : Bool := (s.watch? h).any Watch.isLive

/-- All that the consumer of a watch has got from some actions or can get after them. -/
def received (s : Store) (h : WatchHandle) (actions : List Action) : List Event :=
  Watch.yielded (s.items h actions) ++ (((s.run actions).watch? h).map Watch.held).getD []

/-- **A watch that is open has received what it was to see.** -/
theorem Watches.received_eq (hs : s.Follows log) (hw : s.Watches i h t w) (hopen : w.Open)
    {actions : List Action} (hkept : .dropWatch h ∉ actions)
    (hend : (s.run actions).isOpen h = true) :
    s.received h actions =
      w.held ++ seen w.selection t.definition (ofTable i (s.log actions)) := by
  obtain ⟨⟨t', ht', hw'⟩, hitems⟩ := hw.fed_run hs actions hkept
  have hwatch : (s.run actions).watch? h = some (w.after t.definition s.limits.queueCapacity
      (s.feed i h actions)) := by
    refine Watches.watch?_eq ⟨?_, ht', hw'⟩
    rw [(sameKinds_run hs actions).position?_eq, hw.position_eq]
  have hlive :
      (w.after t.definition s.limits.queueCapacity (s.feed i h actions)).phase = .live := by
    simpa [isOpen, hwatch, Watch.isLive] using hend
  rw [received, hwatch, hitems, ← observed_feed s w.selection t.definition i h actions]
  exact Watch.received_of_live hopen hlive

/-- **A watch that resumed and is open has received all there was to see after its version.** -/
theorem Follows.received_eq (hs : s.Follows log) {kind : String} {scope : Scope} {m : Moment}
    {criteria : Criteria} {since : Version} {timeout : Option Nat} (hsince : since ≤ s.version)
    (hopen : (s.act (.call kind scope m (.request (.watch criteria (some since) timeout)))).1 =
      .answer (.ok (.watching h))) :
    ∃ i t, s.find kind = .ok i ∧ s.tables[i]? = some t ∧
      ∀ s', s' = (s.act (.call kind scope m (.request (.watch criteria (some since) timeout)))).2 →
      ∀ actions, .dropWatch h ∉ actions → (s'.run actions).isOpen h = true →
        s'.received h actions = seen ⟨criteria, scope⟩ t.definition
          (ofTable i ((log ++ s'.log actions).filter fun c => since < c.version)) := by
  obtain ⟨i, t, events, hfind, ht, ho, hw⟩ := act_opened hs hopen
  refine ⟨i, t, hfind, ht, ?_⟩
  rintro s' rfl actions hkept hend
  have hs' := hs.act_watch kind scope m criteria (some since) timeout
  have hlater (c : Commit) (hc : c ∈ Store.log _ actions) : since < c.version :=
    Nat.lt_of_le_of_lt hsince (hs.version_lt (follows_run hs' actions) hc)
  rw [hw.received_eq hs' ⟨rfl, rfl⟩ hkept hend, List.filter_append,
    List.filter_eq_self.mpr fun c hc => decide_eq_true (hlater c hc), ofTable_append, seen_append]
  refine congrArg (· ++ _) ?_
  rw [show (Focus.newWatch (s.focus t) scope m criteria timeout events).held = events from
    List.append_nil events, hs.resumed ht (opening_eq_ok_iff.mp ho).2.2, ofTable, ofTable,
    List.filter_filter, List.filter_filter]
  simp only [Bool.and_comm]

/-- Versions never fall. -/
theorem Follows.version_le_run (hs : s.Follows log) (actions : List Action) :
    s.version ≤ (s.run actions).version := by
  rw [← hs.length_eq, ← (follows_run hs actions).length_eq, List.length_append]
  exact Nat.le_add_right ..

end Store

/-- **A broadcast queues for a watch the event that a replay of the change would show it.** The
watch may be any of those that share the broadcast. -/
theorem Focus.queued_eq_replayed {f : Focus} {now : Nat} {version : Version} {change : Change}
    {n : Nat} {w w' : Watch} {delivery : Watch.Delivery} (hw : f.table.watches[n]? = some w)
    (hlive : w.isLive = true)
    (hdelivered : (f.broadcast now version change)[n]? = some (w', delivery))
    (hlive' : w'.isLive = true) {history : History} (hheld : history.changes = [(version, change)])
    {since : Version} (hsince : since < version) (hold : history.oldest ≤ since) :
    ∃ events, history.replay? f.table.definition w.selection since = some events ∧
      w'.queue = w.queue ++ events := by
  rw [broadcast_eq, List.getElem?_map, hw, Option.map_some] at hdelivered
  obtain rfl := congrArg Prod.fst (Option.some.inj hdelivered)
  have hphase : w.phase = .live := by simpa [Watch.isLive] using hlive
  refine ⟨(w.selection.event? f.table.definition version change).toList, ?_, ?_⟩
  · rw [History.replay?, if_neg (Nat.not_lt.mpr hold), hheld,
      List.filter_cons_of_pos (by simpa using hsince), List.filterMap_cons]
    cases w.selection.event? f.table.definition version change <;> rfl
  · rw [Watch.receive_live hphase] at hlive' ⊢
    split at hlive'
    · rw [Watch.close_live hphase] at hlive'
      cases hlive'
    · next hdeadline =>
      rw [if_neg hdeadline]
      cases hevent : w.selection.event? f.table.definition version change with
      | none => exact (List.append_nil _).symm
      | some e =>
        rw [hevent] at hlive'
        dsimp only at hlive' ⊢
        split at hlive'
        · next hroom =>
          rw [if_pos hroom]
          rfl
        · rw [Watch.close_live hphase] at hlive'
          cases hlive'

namespace Store

/-- **Watches that resume from one version have received the same, whenever they were opened**, as
long as they are open; and what a broadcast gives a watch is what a replay would show it. -/
theorem resumed_agree (catalog : Catalog) (limits : WatchLimits)
    (before between after : List Action) {kind : String} {scope : Scope} {criteria : Criteria}
    {since : Version} {m m' : Moment} {timeout timeout' : Option Nat} {h h' : WatchHandle}
    {s s₁ s₂ : Store} {first second : Action}
    (hs : s = (empty catalog limits).run before)
    (hfirst : first = .call kind scope m (.request (.watch criteria (some since) timeout)))
    (hsecond : second = .call kind scope m' (.request (.watch criteria (some since) timeout')))
    (hs₁ : s.act first = (.answer (.ok (.watching h)), s₁))
    (hs₂ : (s₁.run between).act second = (.answer (.ok (.watching h')), s₂))
    (hsince : since ≤ s.version) (hkept : .dropWatch h ∉ between ++ second :: after)
    (hkept' : .dropWatch h' ∉ after) (hopen : (s₂.run after).isOpen h = true)
    (hopen' : (s₂.run after).isOpen h' = true) :
    s₁.received h (between ++ second :: after) = s₂.received h' after ∧
    ∀ (f : Focus) (now : Nat) (version : Version) (change : Change) (n : Nat) (w w' : Watch)
      (delivery : Watch.Delivery) (history : History) (v : Version),
      f.table.watches[n]? = some w → w.isLive = true →
      (f.broadcast now version change)[n]? = some (w', delivery) → w'.isLive = true →
      history.changes = [(version, change)] → v < version → history.oldest ≤ v →
      ∃ events, history.replay? f.table.definition w.selection v = some events ∧
        w'.queue = w.queue ++ events := by
  refine ⟨?_, fun f now version change n w w' delivery history v hw hlive hdelivered hlive' hheld
    hv hold => Focus.queued_eq_replayed hw hlive hdelivered hlive' hheld hv hold⟩
  have hfollows := follows_reached catalog limits before
  rw [← hs] at hfollows
  subst hfirst hsecond
  obtain ⟨i, t, hfind, ht, hreceived⟩ := hfollows.received_eq hsince (congrArg Prod.fst hs₁)
  have hfollows₁ := hfollows.act_watch kind scope m criteria (some since) timeout
  rw [hs₁] at hfollows₁ hreceived
  have hfollows' := follows_run hfollows₁ between
  have hle : s.version ≤ (s₁.run between).version := by
    have hstep := hfollows₁.version_le_run between
    rwa [← hfollows₁.length_eq, hfollows.length_eq] at hstep
  obtain ⟨j, t', hfind', ht', hreceived'⟩ :=
    hfollows'.received_eq (Nat.le_trans hsince hle) (congrArg Prod.fst hs₂)
  rw [hs₂] at hreceived'
  have hkinds : s.SameKinds (s₁.run between) := by
    have hstep := sameKinds_act hfollows
      (.call kind scope m (.request (.watch criteria (some since) timeout)))
    rw [hs₁] at hstep
    exact hstep.trans (sameKinds_run hfollows₁ between)
  obtain rfl : i = j := Except.ok.inj (hfind.symm.trans ((hkinds.find_eq kind).symm.trans hfind'))
  have hend : s₁.run (between ++ .call kind scope m' (.request (.watch criteria (some since)
      timeout')) :: after) = s₂.run after := by
    rw [run_append, run_cons, hs₂]
  rw [hreceived s₁ rfl _ hkept (hend ▸ hopen), hreceived' s₂ rfl after hkept' hopen',
    hkinds.definition_eq ht ht', log_append, Store.log, commits_call_nil fun _ reply => by
      cases reply <;> rfl, hs₂, List.nil_append, List.append_assoc]

theorem resumed_agree_configs :
    ∃ s₁ s₂, configStore.act (watchConfigs 0) =
        (.answer (.ok (.watching ⟨"v1/ConfigMap", 0⟩)), s₁) ∧
      (s₁.run [createConfig "a"]).act (watchConfigs 0) =
        (.answer (.ok (.watching ⟨"v1/ConfigMap", 1⟩)), s₂) ∧
      s₁.received ⟨"v1/ConfigMap", 0⟩ [createConfig "a", watchConfigs 0, createConfig "b"] =
        s₂.received ⟨"v1/ConfigMap", 1⟩ [createConfig "b"] :=
  ⟨_, _, rfl, rfl, (resumed_agree configCatalog ⟨2, 1000, 2⟩ [] [createConfig "a"]
    [createConfig "b"] rfl rfl rfl rfl rfl (Nat.le_refl 0) (by simp [createConfig, configCall])
    (by simp [createConfig, configCall]) rfl rfl).1⟩

end Store

end ControlPlane
