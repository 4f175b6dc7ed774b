import ControlPlane.Proofs.Counters
import ControlPlane.Proofs.Uses
import ControlPlane.Text.Lemmas
import Mathlib.Data.List.Count
import Mathlib.Data.List.Nodup

/-!
# Series of the metrics text

A sample of the metrics text belongs to a series: the name of its metric with its labels. A counter
that has counted something is shown once, since a counter has one entry however many kinds share it.
The sizes of tables are shown table by table, and are labeled by the name of the kind alone: kinds
of one name in different groups repeat a series.

* `Metrics.series`: the series of some lines, as a reader of the text finds them.
* `Series.text_injective`: the text of a series tells its metric, its kind, and its verb or reason.
* `Counters.WellKept`: every counter has one entry, and has counted something.
* `Server.series_shown`: how often each series is shown by a server, and when none is repeated.
* `Server.series_repeated`: a server whose text repeats a series.
-/

namespace ControlPlane

/-! ## Reading the text -/

namespace Metrics

/-- The line is a sample and no comment. -/
def isSample (line : String) : Bool := line.toList.head? ≠ some '#'

/-- What stands before the last blank of a line. -/
def beforeValue (line : String) : String :=
  String.ofList ((line.toList.reverse.dropWhile (· ≠ ' ')).drop 1).reverse

/-- The series of the samples among some lines. -/
def series (lines : List String) : List String := (lines.filter isSample).map beforeValue

end Metrics

/-- What a sample is of. -/
inductive Series where
  | counter (c : Counter)
  | objects (kind : String)
  | watchers (kind : String)
deriving DecidableEq, Repr

namespace Series

/-- The name of the metric. -/
def name : Series → String
  | counter c => Metrics.fullName c.metric ++ "_total"
  | objects _ => Metrics.fullName "objects"
  | watchers _ => Metrics.fullName "watchers"

/-- The labels. -/
def labels : Series → List (String × String)
  | counter c => c.labels
  | objects kind => [("kind", kind)]
  | watchers kind => [("kind", kind)]

/-- The labels of a sample, up to the brace that ends them. -/
def labelText (labels : List (String × String)) : String :=
  Text.join "," (labels.map fun l => l.1 ++ "=\"" ++ l.2 ++ "\"") ++ "\x7d"

/-- The series as a sample shows it. -/
def text (x : Series) : String := x.name ++ "\x7b" ++ labelText x.labels

/-- The sample of a series. -/
def sample (x : Series) (n : Nat) : String := Metrics.sample x.name x.labels n

theorem toList_text (x : Series) :
    x.text.toList = x.name.toList ++ '\x7b' :: (labelText x.labels).toList := by
  simp [text]

theorem toList_sample (x : Series) (n : Nat) :
    (x.sample n).toList = x.text.toList ++ ' ' :: Nat.toDigits 10 n := by
  simp [sample, Metrics.sample, text, labelText]

/-! ### A line of the text -/

/-- Every metric has a name that begins in the same way. -/
theorem exists_name (x : Series) : ∃ cs, x.name.toList = 'k' :: cs := by
  have hfull (metric : String) : ∃ cs, (Metrics.fullName metric).toList = 'k' :: cs :=
    ⟨_, by rw [Metrics.fullName, String.toList_append]; rfl⟩
  cases x with
  | counter c =>
    obtain ⟨cs, hcs⟩ := hfull c.metric
    exact ⟨_, by rw [name, String.toList_append, hcs]; rfl⟩
  | objects kind => exact hfull "objects"
  | watchers kind => exact hfull "watchers"

/-- A sample is no comment. -/
theorem isSample_sample (x : Series) (n : Nat) : Metrics.isSample (x.sample n) = true := by
  obtain ⟨cs, hname⟩ := x.exists_name
  rw [Metrics.isSample, toList_sample, toList_text, hname]
  simp

/-- The value of a sample comes after its last blank. -/
theorem beforeValue_sample (x : Series) (n : Nat) : Metrics.beforeValue (x.sample n) = x.text := by
  have hdigits : ∀ c ∈ (Nat.toDigits 10 n).reverse, decide (c ≠ ' ') = true := by
    intro c hc
    have hdigit := Nat.isDigit_of_mem_toDigits (by decide) (by decide) (List.mem_reverse.mp hc)
    refine decide_eq_true fun hblank => ?_
    rw [hblank] at hdigit
    exact absurd hdigit (by decide)
  rw [Metrics.beforeValue, toList_sample, List.reverse_append, List.reverse_cons,
    List.append_assoc, List.dropWhile_append_of_pos hdigits]
  simp

/-! ### What the text of a series tells -/

theorem brace_notMem_name (x : Series) : '\x7b' ∉ x.name.toList := by
  rcases x with (_ | _ | _) | _ | _ <;> simp [name, Metrics.fullName, Counter.metric]

/-- The text of a series tells the name of its metric and its labels. -/
theorem text_eq_iff {x y : Series} :
    x.text = y.text ↔ x.name = y.name ∧ labelText x.labels = labelText y.labels := by
  rw [← String.toList_inj, toList_text, toList_text,
    Text.append_cons_inj_left x.brace_notMem_name y.brace_notMem_name, String.toList_inj,
    String.toList_inj]

theorem labelText_kind_inj {kind kind' : String} :
    labelText [("kind", kind)] = labelText [("kind", kind')] ↔ kind = kind' := by
  simp [labelText, Text.join, ← String.toList_inj]

/-- Two labels are told apart if the value of the second has no quote. -/
theorem labelText_pair_inj {key kind kind' value value' : String} (h : '"' ∉ value.toList)
    (h' : '"' ∉ value'.toList) :
    labelText [("kind", kind), (key, value)] = labelText [("kind", kind'), (key, value')] ↔
      kind = kind' ∧ value = value' := by
  have hsplit (kind value : String) :
      (labelText [("kind", kind), (key, value)]).toList =
        "kind=\"".toList ++ (((kind.toList ++ ("\"," ++ key ++ "=").toList) ++
          '"' :: value.toList) ++ "\"\x7d".toList) := by
    simp [labelText, Text.join]
  rw [← String.toList_inj, hsplit, hsplit, List.append_cancel_left_eq, List.append_cancel_right_eq,
    Text.append_cons_inj_right h h', List.append_cancel_right_eq, String.toList_inj,
    String.toList_inj]

theorem quote_notMem_verb (verb : Verb) : '"' ∉ verb.word.toList := by
  cases verb <;> decide

theorem quote_notMem_reason (reason : EndReason) : '"' ∉ reason.word.toList := by
  cases reason <;> decide

theorem verb_word_inj {verb verb' : Verb} (h : verb.word = verb'.word) : verb = verb' := by
  cases verb <;> cases verb' <;> first | rfl | exact absurd h (by decide)

theorem reason_word_inj {reason reason' : EndReason} (h : reason.word = reason'.word) :
    reason = reason' := by
  cases reason <;> cases reason' <;> first | rfl | exact absurd h (by decide)

/-- **Different series have different texts.** -/
theorem text_injective : Function.Injective text := by
  intro x y h
  obtain ⟨hname, hlabels⟩ := text_eq_iff.mp h
  -- Metrics have different names, so only the five pairs of one metric are left.
  rcases x with (⟨kind, verb⟩ | kind | ⟨kind, reason⟩) | kind | kind <;>
    rcases y with (⟨kind', verb'⟩ | kind' | ⟨kind', reason'⟩) | kind' | kind' <;>
    first
    | (simp [name, Metrics.fullName, Counter.metric] at hname; done)
    | simp only [labels, Counter.labels] at hlabels
  · obtain ⟨rfl, hword⟩ :=
      (labelText_pair_inj (quote_notMem_verb verb) (quote_notMem_verb verb')).mp hlabels
    rw [verb_word_inj hword]
  · rw [labelText_kind_inj.mp hlabels]
  · obtain ⟨rfl, hword⟩ :=
      (labelText_pair_inj (quote_notMem_reason reason) (quote_notMem_reason reason')).mp hlabels
    rw [reason_word_inj hword]
  · rw [labelText_kind_inj.mp hlabels]
  · rw [labelText_kind_inj.mp hlabels]

end Series

/-! ## The series of the metrics text -/

namespace Metrics

/-- The series that are shown for some counters and tables, in the order of the text. -/
def shown (counters : Counters) (tables : List TableSize) : List Series :=
  ["mutations", "watch_events", "watch_closed"].flatMap (fun metric =>
      ((counters.map (·.1)).filter (·.metric == metric)).map .counter) ++
    tables.map (fun t => .objects t.kind) ++ tables.map fun t => .watchers t.kind

theorem series_append (lines lines' : List String) :
    series (lines ++ lines') = series lines ++ series lines' := by
  rw [series, List.filter_append, List.map_append]
  rfl

/-- Comments belong to no series. -/
theorem series_header (metric help type : String) : series (header metric help type) = [] := by
  simp [series, header, isSample]

/-- Samples belong to their series. -/
theorem series_samples {α : Type} (entries : List α) (of : α → Series) (value : α → Nat) :
    series (entries.map fun a => (of a).sample (value a)) = (entries.map of).map Series.text := by
  have hall : ∀ line ∈ entries.map (fun a => (of a).sample (value a)), isSample line = true := by
    intro line hline
    obtain ⟨a, -, rfl⟩ := List.mem_map.mp hline
    exact (of a).isSample_sample _
  rw [series, List.filter_eq_self.mpr hall, List.map_map, List.map_map]
  exact List.map_congr_left fun a _ => (of a).beforeValue_sample _

theorem series_counterLines (counters : Counters) (metric help : String) :
    series (counterLines counters metric help) =
      (((counters.map (·.1)).filter (·.metric == metric)).map Series.counter).map Series.text := by
  have hkeys : ((counters.map (·.1)).filter (·.metric == metric)).map Series.counter =
      (counters.filter fun e => e.1.metric == metric).map fun e => Series.counter e.1 := by
    rw [List.filter_map, List.map_map]
    rfl
  rw [hkeys, counterLines, series_append, series_header, List.nil_append,
    ← series_samples _ _ (·.2)]
  refine congrArg series (List.map_congr_left fun e he => ?_)
  have hmetric : e.1.metric = metric := by simpa using (List.mem_filter.mp he).2
  rw [← hmetric]
  rfl

/-- **The series of the text are those of the counters, then one for each table and size.** -/
theorem series_lines (counters : Counters) (tables : List TableSize) :
    series (lines counters tables) = (shown counters tables).map Series.text := by
  have hobjects : series (gaugeLines tables "objects" "The number of live objects of each kind"
      (·.objects)) = (tables.map fun t => Series.objects t.kind).map Series.text := by
    rw [gaugeLines, series_append, series_header, List.nil_append, ← series_samples _ _ (·.objects)]
    rfl
  have hwatchers : series (gaugeLines tables "watchers" "The number of active watchers of each kind"
      (·.watchers)) = (tables.map fun t => Series.watchers t.kind).map Series.text := by
    rw [gaugeLines, series_append, series_header, List.nil_append,
      ← series_samples _ _ (·.watchers)]
    rfl
  have hend : series ["# EOF"] = [] := rfl
  simp only [lines, shown, series_append, series_counterLines, hobjects, hwatchers, hend,
    List.map_append, List.flatMap_cons, List.flatMap_nil, List.append_nil, List.append_assoc]

/-! ### How often a series is shown -/

theorem count_map_of_ne {α : Type} {of : α → Series} {x : Series} (h : ∀ a, of a ≠ x)
    (entries : List α) : (entries.map of).count x = 0 := by
  rw [List.count_eq_zero]
  intro hmem
  obtain ⟨a, -, ha⟩ := List.mem_map.mp hmem
  exact h a ha

theorem count_counter_filter (keys : List Counter) (metric : String) (c : Counter) :
    ((keys.filter (·.metric == metric)).map Series.counter).count (.counter c) =
      if c.metric = metric then keys.count c else 0 := by
  rw [List.count_map_of_injective _ _ fun _ _ => Series.counter.inj]
  by_cases hc : c.metric = metric
  · rw [if_pos hc, List.count_filter (by simpa using hc)]
  · rw [if_neg hc, List.count_eq_zero]
    intro hmem
    exact hc (by simpa using (List.mem_filter.mp hmem).2)

/-- A counter is shown once for each of its entries. -/
theorem count_counter_shown (counters : Counters) (tables : List TableSize) (c : Counter) :
    (shown counters tables).count (.counter c) = (counters.map (·.1)).count c := by
  have hobjects : (tables.map fun t => Series.objects t.kind).count (.counter c) = 0 :=
    count_map_of_ne nofun tables
  have hwatchers : (tables.map fun t => Series.watchers t.kind).count (.counter c) = 0 :=
    count_map_of_ne nofun tables
  simp only [shown, List.flatMap_cons, List.flatMap_nil, List.append_nil, List.count_append,
    count_counter_filter, hobjects, hwatchers]
  cases c <;> simp [Counter.metric]

/-- A size is shown once for each table of a kind name. -/
theorem count_size_shown {of : String → Series} (h : of = .objects ∨ of = .watchers)
    (counters : Counters) (tables : List TableSize) (kind : String) :
    (shown counters tables).count (of kind) = (tables.map (·.kind)).count kind := by
  have hcounters (keys : List Counter) : (keys.map Series.counter).count (of kind) = 0 :=
    count_map_of_ne (fun c => by rcases h with rfl | rfl <;> nofun) keys
  have hown (of : String → Series) (hof : Function.Injective of) :
      (tables.map fun t => of t.kind).count (of kind) = (tables.map (·.kind)).count kind := by
    rw [← List.count_map_of_injective _ of hof, List.map_map]
    rfl
  simp only [shown, List.flatMap_cons, List.flatMap_nil, List.count_append, List.count_nil,
    hcounters]
  rcases h with rfl | rfl
  · rw [hown _ fun _ _ => Series.objects.inj, count_map_of_ne nofun]
    simp
  · rw [hown _ fun _ _ => Series.watchers.inj, count_map_of_ne nofun]
    simp

/-- No series is repeated if no counter has two entries and no two tables have one name. -/
theorem nodup_shown {counters : Counters} (h : (counters.map (·.1)).Nodup)
    (tables : List TableSize) :
    (shown counters tables).Nodup ↔ (tables.map (·.kind)).Nodup := by
  rw [List.nodup_iff_count_le_one] at h
  rw [List.nodup_iff_count_le_one, List.nodup_iff_count_le_one]
  constructor
  · intro hshown kind
    rw [← count_size_shown (Or.inl rfl) counters]
    exact hshown _
  · intro hkinds x
    cases x with
    | counter c =>
      rw [count_counter_shown]
      exact h c
    | objects kind =>
      rw [count_size_shown (Or.inl rfl)]
      exact hkinds kind
    | watchers kind =>
      rw [count_size_shown (Or.inr rfl)]
      exact hkinds kind

end Metrics

/-! ## The counters of a store -/

namespace Counters

/-- Every counter has one entry, and has counted something. -/
structure WellKept (counters : Counters) : Prop where
  nodup : (counters.map (·.1)).Nodup
  pos : ∀ e ∈ counters, 0 < e.2

theorem keys_add (counters : Counters) (c : Counter) (n : Nat) :
    (counters.add c n).map (·.1) =
      if c ∈ counters.map (·.1) then counters.map (·.1) else counters.map (·.1) ++ [c] := by
  induction counters with
  | nil => rfl
  | cons e counters ih =>
    obtain ⟨c', m⟩ := e
    rw [add]
    by_cases hc : c' = c
    · simp [hc]
    · rw [if_neg hc, List.map_cons, ih]
      by_cases hmem : c ∈ counters.map (·.1)
      · simp [hmem, Ne.symm hc]
      · simp [hmem, Ne.symm hc]

theorem pos_add {counters : Counters} (h : ∀ e ∈ counters, 0 < e.2) (c : Counter) {n : Nat}
    (hn : 0 < n) : ∀ e ∈ counters.add c n, 0 < e.2 := by
  induction counters with
  | nil => simpa [add] using hn
  | cons e counters ih =>
    obtain ⟨c', m⟩ := e
    obtain ⟨hm, hrest⟩ := List.forall_mem_cons.mp h
    rw [add]
    split
    · exact List.forall_mem_cons.mpr ⟨Nat.add_pos_left hm n, hrest⟩
    · exact List.forall_mem_cons.mpr ⟨hm, ih hrest⟩

theorem kept_wellKept : Kept WellKept := by
  intro counters c n hn h
  refine ⟨?_, pos_add h.pos c hn⟩
  rw [keys_add]
  split
  · exact h.nodup
  · next hc =>
    rw [List.nodup_append_comm]
    exact List.nodup_cons.mpr ⟨hc, h.nodup⟩

theorem wellKept_nil : WellKept [] := ⟨List.nodup_nil, nofun⟩

/-- A counter has an entry if it has counted something. -/
theorem WellKept.count_keys {counters : Counters} (h : WellKept counters) (c : Counter) :
    (counters.map (·.1)).count c = if counters.count c = 0 then 0 else 1 := by
  obtain ⟨hnodup, hpos⟩ := h
  induction counters with
  | nil => rfl
  | cons e counters ih =>
    obtain ⟨c', m⟩ := e
    obtain ⟨hm, hrest⟩ := List.forall_mem_cons.mp hpos
    rw [List.map_cons, List.nodup_cons] at hnodup
    by_cases hc : c' = c
    · subst hc
      rw [count_cons, if_pos rfl, if_neg (Nat.ne_of_gt hm), List.map_cons, List.count_cons_self,
        List.count_eq_zero.mpr hnodup.1]
    · rw [count_cons, if_neg hc, List.map_cons, List.count_cons_of_ne (by simpa using hc)]
      exact ih hnodup.2 hrest

end Counters

/-! ## The series that a server shows -/

/-- How often the metrics text of a store shows each series. -/
structure Store.Shows (s : Store) (catalog : Catalog) : Prop where
  /-- A counter is shown once it has counted something, and once only. -/
  counters : ∀ c, (Metrics.series s.metrics).count (Series.counter c).text =
    if s.counters.count c = 0 then 0 else 1
  /-- The number of objects is shown as often as there are kinds of a name. -/
  objects : ∀ kind, (Metrics.series s.metrics).count (Series.objects kind).text =
    (catalog.definitions.map (·.name)).count kind
  /-- So is the number of watchers. -/
  watchers : ∀ kind, (Metrics.series s.metrics).count (Series.watchers kind).text =
    (catalog.definitions.map (·.name)).count kind
  /-- Nothing else is shown. -/
  known : ∀ text ∈ Metrics.series s.metrics, ∃ x : Series, text = x.text
  /-- No series is repeated exactly if no two kinds have one name. -/
  nodup_iff : (Metrics.series s.metrics).Nodup ↔ (catalog.definitions.map (·.name)).Nodup

namespace Store

theorem shows_run (catalog : Catalog) (limits : WatchLimits) (actions : List Action) :
    ((empty catalog limits).run actions).Shows catalog := by
  have hkept := Counters.kept_wellKept.run (follows_empty catalog limits) Counters.wellKept_nil
    actions
  have hdefinitions := definitions_reached catalog limits actions
  generalize (empty catalog limits).run actions = s at hkept hdefinitions ⊢
  have hkinds : (s.sizes.map (·.kind)).Perm (catalog.definitions.map (·.name)) := by
    rw [← hdefinitions, definitions, List.map_map]
    have hsizes := (TableSize.perm_byName (s.tables.map Table.size)).map (·.kind)
    rwa [List.map_map] at hsizes
  have hseries : Metrics.series s.metrics =
      (Metrics.shown s.counters s.sizes).map Series.text := Metrics.series_lines _ _
  have hcount (x : Series) : (Metrics.series s.metrics).count x.text =
      (Metrics.shown s.counters s.sizes).count x := by
    rw [hseries, List.count_map_of_injective _ _ Series.text_injective]
  constructor
  · intro c
    rw [hcount, Metrics.count_counter_shown, hkept.count_keys]
  · intro kind
    rw [hcount, Metrics.count_size_shown (Or.inl rfl), hkinds.count_eq]
  · intro kind
    rw [hcount, Metrics.count_size_shown (Or.inr rfl), hkinds.count_eq]
  · intro text htext
    rw [hseries] at htext
    obtain ⟨x, -, rfl⟩ := List.mem_map.mp htext
    exact ⟨x, rfl⟩
  · rw [hseries, List.nodup_map_iff Series.text_injective, Metrics.nodup_shown hkept.nodup,
      hkinds.nodup_iff]

end Store

namespace Server

/-- **A server shows every counter once, and the sizes of its tables once for each kind of a name**,
so that its metrics text repeats a series exactly if two of its kinds have one name. -/
theorem series_shown (catalog : Catalog) (limits : WatchLimits) (x : ViewScheme)
    (views : List (String × Option (List String))) (us : List Use) :
    ((start catalog limits x views).uses us).store.Shows catalog := by
  rw [uses_start]
  exact Store.shows_run catalog limits _

/-- **A server whose text repeats a series**: it holds both kinds of events, and one event. -/
theorem series_repeated :
    ((start (Catalog.empty.registerAll Client.eventKinds) .standard .standard []).uses
        [.act (.store Client.createEvent)]).store.metrics.filter Metrics.isSample =
      ["kubemem_mutations_total\x7bkind=\"Event\",verb=\"create\"\x7d 1",
        "kubemem_objects\x7bkind=\"Event\"\x7d 1", "kubemem_objects\x7bkind=\"Event\"\x7d 0",
        "kubemem_watchers\x7bkind=\"Event\"\x7d 0", "kubemem_watchers\x7bkind=\"Event\"\x7d 0"] ∧
    ¬ (Metrics.series ((start (Catalog.empty.registerAll Client.eventKinds) .standard .standard
        []).uses [.act (.store Client.createEvent)]).store.metrics).Nodup := by
  refine (and_iff_left_of_imp fun hsamples => ?_).mpr ?_
  · rw [Metrics.series, hsamples]
    decide +kernel
  · decide +kernel

end Server

end ControlPlane
