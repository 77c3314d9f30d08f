import MarketMinutes.Proofs.CommandLine.Aggregate
import MarketMinutes.Proofs.Table.LastRecords

/-!
# Commands run again

To aggregate a feed once more adds its records once more, or drops what was
there for them. So the files hold so many copies of what a single run writes,
and the table of the copies is the table of one.
-/

namespace MarketMinutes

/-! ## Copies -/

namespace Collection

/-- The tree with so many copies of some records in the files of their kinds. -/
def copied (made : FileTree) (place : Kind → Location) (records : List Record) (n : Nat) : FileTree :=
  made.putKinds place fun kind => text ((List.replicate n records).flatten.filter (·.kind = kind))

theorem text_copies (n : Nat) (records : List Record) (kind : Kind) :
    text ((List.replicate n records).flatten.filter (·.kind = kind)) =
      (List.replicate n (text (records.filter (·.kind = kind)))).flatten := by
  induction n with
  | zero => rfl
  | succ n ih =>
    rw [List.replicate_succ, List.flatten_cons, List.filter_append, text_append, ih, List.replicate_succ,
      List.flatten_cons]

/-- How many copies there are after a run, given those before it. -/
def again (n : Nat) (drop : Bool) : Nat :=
  if drop then 1 else n + 1

theorem foldl_again_drop (n : Nat) : (List.replicate n true).foldl again 1 = 1 := by
  induction n with
  | zero => rfl
  | succ n ih => exact ih

theorem foldl_again_add (n k : Nat) : (List.replicate n false).foldl again k = k + n := by
  induction n generalizing k with
  | zero => rfl
  | succ n ih =>
    have hstep : (List.replicate (n + 1) false).foldl again k = (List.replicate n false).foldl again (k + 1) := rfl
    rw [hstep, ih, Nat.add_assoc, Nat.add_comm 1]

variable {made : FileTree} {directory collection : String} {place : Kind → Location}

theorem text_again (records : List Record) (n : Nat) (drop : Bool) (kind : Kind) :
    (if drop then [] else text ((List.replicate n records).flatten.filter (·.kind = kind))) ++
        text (records.filter (·.kind = kind)) =
      text ((List.replicate (again n drop) records).flatten.filter (·.kind = kind)) := by
  cases drop with
  | true =>
    have hone : (List.replicate (again n true) records).flatten = records := List.append_nil records
    rw [hone]
    rfl
  | false =>
    have hmore : (List.replicate (again n false) records).flatten = (List.replicate n records).flatten ++ records := by
      rw [again, if_neg Bool.false_ne_true, List.replicate_succ', List.flatten_append, List.flatten_singleton]
    rw [hmore, List.filter_append, text_append]
    rfl

theorem Writable.copied (h : Writable made directory collection place) (records : List Record) (n : Nat) :
    Writable (copied made place records n) directory collection place :=
  h.sameWays (.putKinds ..)

theorem Writable.opening_copied (h : Writable made directory collection place) (records : List Record) (n : Nat)
    (drop : Bool) (kind : Kind) :
    opening (Collection.copied made place records n) place drop kind =
      if drop then [] else text ((List.replicate n records).flatten.filter (·.kind = kind)) := by
  unfold opening Writer.opening Collection.copied
  rw [FileTree.content?_putKinds h.injective]
  rfl

theorem Writable.lookup?_copied (h : Writable made directory collection place) (records : List Record) (n : Nat)
    (kind : Kind) :
    (Collection.copied made place records n).lookup? (path directory collection kind) =
      some (.file (List.replicate n (text (records.filter (·.kind = kind)))).flatten) := by
  rw [FileTree.lookup?_of_writable ((h.copied records n).places kind), Collection.copied,
    FileTree.content?_putKinds h.injective, text_copies]
  rfl

end Collection

namespace Program

/-- Commands run one after another, each on the tree that the one before it left. -/
def runCommands (t : FileTree) : List Command → FileTree × List Outcome
  | [] => (t, [])
  | command :: commands =>
    let (t, outcome) := runCommand t command
    let (t, outcomes) := runCommands t commands
    (t, outcome :: outcomes)

variable {t made : FileTree} {configPath output : String} {config : Config} {feed csv : Location}
  {place : Kind → Location}

theorem exists_ready (hload : Config.load t configPath = .ok config)
    (hfresh : Collection.Fresh t config.outputDirectory config.collection) {drop : Bool}
    (hexit : (aggregate t configPath drop).2.exitCode = 0) :
    ∃ feed made place, Ready t configPath config feed made place ∧ Arrival.failure? (arrivals t feed) = none := by
  cases hfound : t.find? config.input with
  | none =>
    simp only [aggregate, hload, hfound] at hexit
    cases hexit
  | some feed =>
    rcases hopen : Store.open t config.outputDirectory config.collection drop with ⟨t', e | s⟩
    · simp only [aggregate, hload, hfound, hopen] at hexit
      cases hexit
    · obtain ⟨made, place, husable⟩ := Collection.Usable.of_open hopen
      have hready : Ready t configPath config feed made place :=
        ⟨hload, hfound, husable, husable.apart_of_fresh hfresh (FileTree.isSome_entry?_of_find? hfound)⟩
      refine ⟨feed, made, place, hready, ?_⟩
      rw [hready.aggregate, ending] at hexit
      cases hf : Arrival.failure? (arrivals t feed) with
      | none => rfl
      | some e =>
        rw [hf] at hexit
        cases hexit

theorem tabulate_of_ok (hconfig : Config.load t configPath = .ok config) {rs : List Record}
    (hload : Collection.load t config.outputDirectory config.collection = .ok rs) (hcsv : t.writable output = .ok csv) :
    tabulate t configPath output = (t.put csv (Bytes.ofText (Table.write config.nearBuckets.toNat rs).text), .done) := by
  simp only [tabulate, hconfig, hload, hcsv]

/-! ## Runs on copies -/

/-- A feed without failures, read under a configuration apart from the files of the collection. -/
structure Rerun (t : FileTree) (configPath : String) (config : Config) (feed : Location) (made : FileTree)
    (place : Kind → Location) : Prop extends Ready t configPath config feed made place where
  sound : Arrival.failure? (arrivals t feed) = none
  config_apart : ∀ kind, t.find? configPath ≠ some (place kind)

namespace Rerun

theorem exists_config (h : Rerun t configPath config feed made place) :
    ∃ q, t.find? configPath = some q ∧ ∀ kind, place kind ≠ q := by
  obtain ⟨content, hlookup, -⟩ := Config.lookup?_of_load h.loads
  obtain ⟨q, hfind, -⟩ := FileTree.lookup?_eq_file_iff.mp hlookup
  refine ⟨q, hfind, ?_⟩
  rintro kind rfl
  exact h.config_apart kind hfind

theorem copied (h : Rerun t configPath config feed made place) (rs : List Record) (n : Nat) :
    Ready (Collection.copied made place rs n) configPath config feed (Collection.copied made place rs n) place := by
  obtain ⟨q, hfind, hq⟩ := h.exists_config
  have hwritable := h.usable.writable.copied rs n
  refine ⟨?_, h.usable.find?_putKinds h.apart h.found _, ⟨hwritable.makeDirectories, hwritable.places⟩, h.apart⟩
  exact (Config.load_congr (h.usable.lookup?_putKinds hq hfind _)).trans h.loads

theorem aggregate_copied (h : Rerun t configPath config feed made place) (n : Nat) (drop : Bool) :
    aggregate (Collection.copied made place (records config (arrivals t feed)) n) configPath drop =
      (Collection.copied made place (records config (arrivals t feed)) (Collection.again n drop), .done) := by
  have harrivals : arrivals (Collection.copied made place (records config (arrivals t feed)) n) feed = arrivals t feed :=
    arrivals_congr (h.usable.entry?_putKinds h.apart h.feed_isSome _)
  rw [(h.copied _ n).aggregate, harrivals, ending, h.sound]
  refine congrArg (·, Outcome.done) ?_
  unfold left
  simp only [h.usable.writable.opening_copied, Collection.text_again]
  exact FileTree.putKinds_putKinds h.usable.writable.injective ..

theorem aggregate_fresh (h : Rerun t configPath config feed made place)
    (hfresh : Collection.Fresh t config.outputDirectory config.collection) (drop : Bool) :
    aggregate t configPath drop = (Collection.copied made place (records config (arrivals t feed)) 1, .done) := by
  rw [h.toReady.aggregate, ending, h.sound]
  refine congrArg (·, Outcome.done) ?_
  unfold left
  simp only [h.usable.writable.opening_eq_nil (.inr (h.usable.lookup?_of_fresh hfresh)), List.nil_append]
  exact congrArg _ (funext fun kind => Collection.text_again _ 0 true kind)

theorem runCommands_copied (h : Rerun t configPath config feed made place) (n : Nat) (drops : List Bool) :
    runCommands (Collection.copied made place (records config (arrivals t feed)) n) (drops.map (.aggregate configPath)) =
      (Collection.copied made place (records config (arrivals t feed)) (drops.foldl Collection.again n),
        List.replicate drops.length .done) := by
  -- All that a run takes over from those before it is the number of copies.
  induction drops generalizing n with
  | nil => rfl
  | cons drop drops ih =>
    simp only [List.map_cons, runCommands, runCommand, h.aggregate_copied, ih]
    rfl

theorem runCommands_fresh (h : Rerun t configPath config feed made place)
    (hfresh : Collection.Fresh t config.outputDirectory config.collection) (n : Nat) (drop : Bool) :
    runCommands t (List.replicate (n + 1) (.aggregate configPath drop)) =
      (Collection.copied made place (records config (arrivals t feed)) (if drop then 1 else n + 1),
        List.replicate (n + 1) .done) := by
  have hcommands : List.replicate n (Command.aggregate configPath drop) =
      (List.replicate n drop).map (.aggregate configPath) := List.map_replicate.symm
  have hcopies : (List.replicate n drop).foldl Collection.again 1 = if drop then 1 else n + 1 := by
    cases drop with
    | true => exact Collection.foldl_again_drop n
    | false => exact (Collection.foldl_again_add n 1).trans (Nat.add_comm 1 n)
  rw [List.replicate_succ, hcommands]
  simp only [runCommands, runCommand, h.aggregate_fresh hfresh, h.runCommands_copied, hcopies, List.length_replicate]
  rfl

theorem tabulate_copied (h : Rerun t configPath config feed made place) {rs : List Record}
    (hcsv : (Collection.copied made place rs 1).writable output = .ok csv) (n : Nat) :
    tabulate (Collection.copied made place rs (n + 1)) configPath output =
      ((Collection.copied made place rs (n + 1)).put csv (Bytes.ofText (Table.write config.nearBuckets.toNat rs).text),
        .done) := by
  have hload : Collection.load (Collection.copied made place rs (n + 1)) config.outputDirectory config.collection =
      .ok (Session.loaded (List.replicate (n + 1) rs).flatten) := Session.load_putKinds h.usable.writable _
  have hsame : Table.SameLast (Session.loaded (List.replicate (n + 1) rs).flatten) rs :=
    (Table.SameLast.loaded _).trans (.of_eq (Table.lastOf?_replicate n rs))
  have hways : (Collection.copied made place rs 1).SameWays (Collection.copied made place rs (n + 1)) :=
    (FileTree.SameWays.putKinds ..).symm.trans (.putKinds ..)
  rw [tabulate_of_ok (h.copied rs (n + 1)).loads hload (hways.writable hcsv), hsame.write]

end Rerun

/-- A feed that can be aggregated where no file of its collection is can be aggregated again and again. With the old
records dropped, any number of runs leaves the tree of a single one; otherwise they leave as many copies of what it
writes to each file. The table written after any of them is the same, byte for byte. -/
theorem reruns_agree (hload : Config.load t configPath = .ok config)
    (hfresh : Collection.Fresh t config.outputDirectory config.collection) {drop : Bool}
    (hexit : (aggregate t configPath drop).2.exitCode = 0)
    (hcsv : (aggregate t configPath drop).1.writable output = .ok csv) :
    let single := (aggregate t configPath drop).1
    let file := Collection.path config.outputDirectory config.collection
    ∃ (bytes : Kind → Bytes) (table : Bytes),
      (∀ kind, single.lookup? (file kind) = some (.file (bytes kind))) ∧
      ∀ n,
        let dropping := runCommands t (List.replicate (n + 1) (.aggregate configPath true))
        let adding := runCommands t (List.replicate (n + 1) (.aggregate configPath false))
        dropping = (single, List.replicate (n + 1) .done) ∧ adding.2 = List.replicate (n + 1) .done ∧
        (∀ kind, adding.1.lookup? (file kind) = some (.file (List.replicate (n + 1) (bytes kind)).flatten)) ∧
        tabulate dropping.1 configPath output = (dropping.1.put csv table, .done) ∧
        tabulate adding.1 configPath output = (adding.1.put csv table, .done) := by
  obtain ⟨feed, made, place, hready, hsound⟩ := exists_ready hload hfresh hexit
  have hapart : ∀ kind, t.find? configPath ≠ some (place kind) := by
    intro kind hfind
    exact hready.usable.apart_of_fresh hfresh (FileTree.isSome_entry?_of_find? hfind) kind rfl
  have h : Rerun t configPath config feed made place := ⟨hready, hsound, hapart⟩
  rw [h.aggregate_fresh hfresh] at hcsv ⊢
  refine ⟨fun kind => Collection.text ((records config (arrivals t feed)).filter (·.kind = kind)),
    Bytes.ofText (Table.write config.nearBuckets.toNat (records config (arrivals t feed))).text,
    fun kind => ?_, fun n => ?_⟩
  · have hlookup := h.usable.writable.lookup?_copied (records config (arrivals t feed)) 1 kind
    rwa [List.replicate_one, List.flatten_singleton] at hlookup
  · have hdropping := h.runCommands_fresh hfresh n true
    have hadding := h.runCommands_fresh hfresh n false
    simp only [if_true, Bool.false_eq_true, if_false] at hdropping hadding
    intro dropping adding
    have hd : dropping = _ := hdropping
    have ha : adding = _ := hadding
    rw [hd, ha]
    exact ⟨rfl, rfl, h.usable.writable.lookup?_copied _ (n + 1), h.tabulate_copied hcsv 0, h.tabulate_copied hcsv n⟩

/-! ## A small tree -/

/-- The one trade of `smallLine`, as the files of its collection have it. -/
def smallBytes : Kind → Bytes
  | .trades => Bytes.ofText <|
      "\x7b\"kind\":\"TRADE_TICKER\",\"minute_utc\":7,\"market_sell_vol\":\"3\",\"market_buy_vol\":\"0\"," ++
        "\"weighted_sell_price\":\"2\",\"weighted_buy_price\":null," ++
        "\"candle\":\x7b\"o\":\"2\",\"h\":\"2\",\"l\":\"2\",\"c\":\"2\"\x7d,\"trade_count\":1\x7d\n"
  | _ => []

def smallTable : String :=
  ",".intercalate Table.header ++ "\n7,,,,,2,2,2,2,3,0,2,,,,,\n"

/-- The tree after a run over that feed. -/
def smallLeft : FileTree :=
  ⟨[["d"]], (smallTree smallLine).files ++ Kind.all.map fun kind => (Session.placeIn kind, smallBytes kind), []⟩

theorem tabulate_smallLeft :
    tabulate smallLeft "config" "table" = (smallLeft.put ["table"] (Bytes.ofText smallTable), .done) := by
  let trade : TradeMinute :=
    ⟨7, none, ⟨false, 3, 0, by decide, by decide⟩, .zero, some .two, none, some (.ofPrice .two), 1⟩
  have hlookup : smallLeft.lookup? "config" = some (.file (Bytes.ofText smallConfigText)) := rfl
  have hconfig : Config.load smallLeft "config" = .ok smallConfig := by
    rw [Config.load, hlookup]
    exact ofBytes_smallConfigText
  have hrecords : Collection.load smallLeft smallConfig.outputDirectory smallConfig.collection = .ok [.trades trade] := by
    decide +kernel
  have htable : (Table.write smallConfig.nearBuckets.toNat [.trades trade]).text = smallTable := by decide +kernel
  have hcsv : smallLeft.writable "table" = .ok ["table"] := rfl
  rw [tabulate_of_ok hconfig hrecords hcsv, htable]

/-- Two runs over a feed of one trade. -/
theorem reruns_agree_on_small_feed :
    let t := smallTree smallLine
    Config.load t "config" = .ok smallConfig ∧ Collection.Fresh t "d" "c" ∧ (aggregate t "config" false).1 = smallLeft ∧
      (aggregate t "config" false).2.exitCode = 0 ∧ smallLeft.writable "table" = .ok ["table"] ∧
      (∀ kind, smallLeft.lookup? (Collection.path "d" "c" kind) = some (.file (smallBytes kind))) ∧
      let dropping := runCommands t [.aggregate "config" true, .aggregate "config" true]
      let adding := runCommands t [.aggregate "config" false, .aggregate "config" false]
      dropping = (smallLeft, [.done, .done]) ∧
        (∀ kind, adding.1.lookup? (Collection.path "d" "c" kind) = some (.file (smallBytes kind ++ smallBytes kind))) ∧
        tabulate dropping.1 "config" "table" = (dropping.1.put ["table"] (Bytes.ofText smallTable), .done) ∧
        tabulate adding.1 "config" "table" = (adding.1.put ["table"] (Bytes.ofText smallTable), .done) := by
  intro t
  have hload : Config.load t "config" = .ok smallConfig := ofBytes_smallConfigText
  have hfresh : Collection.Fresh t "d" "c" := by
    intro kind
    cases kind <;> rfl
  have hsingle : (aggregate t "config" false).1 = smallLeft := by decide +kernel
  have hexit : (aggregate t "config" false).2.exitCode = 0 := by decide +kernel
  have hcsv : smallLeft.writable "table" = .ok ["table"] := rfl
  have hfiles : ∀ kind, smallLeft.lookup? (Collection.path "d" "c" kind) = some (.file (smallBytes kind)) := by
    intro kind
    cases kind <;> rfl
  obtain ⟨bytes, table, hbytes, hruns⟩ := reruns_agree hload hfresh hexit (hsingle ▸ hcsv)
  rw [hsingle] at hbytes
  obtain rfl : bytes = smallBytes := funext fun kind =>
    FileTree.Entry.file.inj (Option.some.inj ((hbytes kind).symm.trans (hfiles kind)))
  obtain ⟨hdropping, -, hadding, htable, htable'⟩ := hruns 1
  rw [hsingle] at hdropping
  obtain rfl : table = Bytes.ofText smallTable := by
    rw [hdropping, tabulate_smallLeft] at htable
    have hput := congrArg (·.1.content? ["table"]) htable
    simp only [FileTree.content?_put_self] at hput
    exact (Option.some.inj hput).symm
  refine ⟨hload, hfresh, hsingle, hexit, hcsv, hfiles, hdropping, fun kind => ?_, htable, htable'⟩
  have htwo : (List.replicate 2 (smallBytes kind)).flatten = smallBytes kind ++ smallBytes kind := by simp [List.replicate]
  exact htwo ▸ hadding kind

end Program
end MarketMinutes
