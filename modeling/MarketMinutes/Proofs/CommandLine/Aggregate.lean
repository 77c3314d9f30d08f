import MarketMinutes.CommandLine.Program
import MarketMinutes.Proofs.Aggregation.Failure
import MarketMinutes.Proofs.Aggregation.Files
import MarketMinutes.Proofs.CommandLine.Settings

/-!
# What a command leaves

Where a feed can be aggregated, the tree after it is the one before it with
its directory made and a file for every kind in place: what the file is opened
with, and behind it the records of the documents before the first failure.
-/

namespace MarketMinutes

namespace Program

theorem arrivals_congr {t t' : FileTree} {feed : Location} (h : t'.entry? feed = t.entry? feed) :
    arrivals t' feed = arrivals t feed := by
  unfold arrivals
  rw [h]

/-- A valid configuration, a feed that is there, and places apart from it for the files of the collection. -/
structure Ready (t : FileTree) (configPath : String) (config : Config) (feed : Location) (made : FileTree)
    (place : Kind → Location) : Prop where
  loads : Config.load t configPath = .ok config
  found : t.find? config.input = some feed
  usable : Collection.Usable t config.outputDirectory config.collection made place
  apart : ∀ kind, place kind ≠ feed

/-- The records of the documents before the first failure. -/
def records (config : Config) (arrivals : List Arrival) : List Record :=
  match Aggregator.new config.maxDepth.toNat config.interval with
  | .error _ => []
  | .ok a => recordsOf a.interval a.book (Arrival.leading arrivals)

def left (config : Config) (made : FileTree) (place : Kind → Location) (drop : Bool) (arrivals : List Arrival) : FileTree :=
  made.putKinds place fun kind =>
    Collection.opening made place drop kind ++ Collection.text ((records config arrivals).filter (·.kind = kind))

def ending (arrivals : List Arrival) : Outcome :=
  match Arrival.failure? arrivals with
  | none => .done
  | some e => .failed (.run (.feed e))

variable {t made : FileTree} {configPath : String} {config : Config} {feed : Location} {place : Kind → Location}

theorem Ready.feed_isSome (h : Ready t configPath config feed made place) : (t.entry? feed).isSome = true :=
  FileTree.isSome_entry?_of_find? h.found

theorem Ready.aggregate (h : Ready t configPath config feed made place) (drop : Bool) :
    aggregate t configPath drop = (left config made place drop (arrivals t feed), ending (arrivals t feed)) := by
  obtain ⟨a, ha⟩ := Config.exists_aggregator (Config.problem?_of_load h.loads)
  obtain ⟨s, hopen, hlocation, hleft⟩ := h.usable.writable.close_of_writes drop
  rw [← h.usable.open_eq] at hopen
  have howns : s.owns feed = false := by simp [Store.owns, Kind.all, hlocation, h.apart]
  have harrivals := arrivals_congr (h.usable.entry?_putKinds h.apart h.feed_isSome (Collection.opening made place drop))
  have hrun := a.run_leading Sink.store_reliable (made.putKinds place (Collection.opening made place drop), s)
    (arrivals t feed)
  have hrecords : records config (arrivals t feed) = recordsOf a.interval a.book (Arrival.leading (arrivals t feed)) := by
    unfold records
    rw [ha]
  obtain ⟨hclose, hflush⟩ := hleft (records config (arrivals t feed))
  rw [hrecords] at hclose hflush
  simp only [Program.aggregate, h.loads, h.found, hopen, aggregateInto, ha, runInto, howns, harrivals, Bool.false_eq_true,
    if_false, left, ending, hrecords]
  cases hf : Arrival.failure? (arrivals t feed) with
  | none =>
    obtain ⟨hresult, hsink⟩ := hrun.1 hf
    simp only [hresult, hsink]
    exact congrArg (·, Outcome.done) hflush
  | some e =>
    obtain ⟨hresult, hsink⟩ := hrun.2 e hf
    simp only [hresult, hsink]
    exact congrArg (·, Outcome.failed (.run (.feed e))) hclose

/-! ## A small tree -/

def smallConfig : Config :=
  ⟨"c", "feed", "d", 1000, Config.defaultInterval, 5, 1000⟩

/-- What is not given is as `smallConfig` has it. -/
def smallConfigText : String :=
  "\x7b\"collection\":\"c\",\"input\":\"feed\",\"output_dir\":\"d\"\x7d"

theorem ofBytes_smallConfigText : Config.ofBytes (Bytes.ofText smallConfigText) = .ok smallConfig := by decide +kernel

/-- A feed, and a configuration that leads to it. -/
def smallTree (feed : String) : FileTree :=
  ⟨[], [(["config"], Bytes.ofText smallConfigText), (["feed"], Bytes.ofText feed)], []⟩

/-- A document of one trade. -/
def smallLine : String :=
  "\x7b\"minute_utc\":7,\"type\":\"TRADE_TICKER\",\"tickers\":[" ++
    "\x7b\"price\":\"2\",\"qty\":\"3\",\"is_market_maker\":true\x7d]\x7d\n"

end Program
end MarketMinutes
