import LcmWire.Proofs.Router.History
import LcmWire.Proofs.Text.ByteOrder
import LcmWire.Proofs.Text.Quoted

/-!
# What a router is shown as

The text that shows a router names the channels that have a handler, in the order of their bytes,
and says whether there is a fallback. It can be taken apart again whatever the channels are called
(`summary_inj`), so it shows these two things and nothing else. The main statement is
`describe_canonical`.
-/

namespace LcmWire.Router

/-- The list of some channels ends where its bracket says, whatever brackets the names hold. -/
theorem selfDelimiting_channels :
    SelfDelimiting fun channels : List String =>
      List.intercalate [',', ' '] (channels.map fun c => Quoted.encode c.toList) ++ [']'] := by
  have hname : SelfDelimiting fun c : String => Quoted.encode c.toList := by
    intro c d x y heq
    obtain ⟨hlist, hrest⟩ := Quoted.selfDelimiting_encode heq
    exact ⟨String.toList_inj.mp hlist, hrest⟩
  have hbegin : NeverBegins ']' fun c : String => Quoted.encode c.toList :=
    fun c => Quoted.neverBegins_encode (by decide) c.toList
  have hcomma : ',' ≠ ']' := by decide
  exact hname.intercalate_stop hbegin hcomma

/-- What stands behind the bracket says whether there is a fallback. -/
def fallbackPart (hasFallback : Bool) : List Char :=
  ", fallback: ".toList ++ (if hasFallback then "true" else "false").toList ++ " \x7d".toList

theorem fallbackPart_inj {b c : Bool} (h : fallbackPart b = fallbackPart c) : b = c := by
  revert b c
  decide

/-- The text that shows a router has a front, a list that ends with a bracket, and a rest. -/
theorem summary_eq (channels : List String) (hasFallback : Bool) :
    summary channels hasFallback =
      "ChannelRouter \x7b channels: [".toList ++
        (List.intercalate [',', ' '] (channels.map fun c => Quoted.encode c.toList) ++ [']']) ++
          fallbackPart hasFallback := by
  have hbracket : "], fallback: ".toList = [']'] ++ ", fallback: ".toList := by decide
  unfold summary fallbackPart
  rw [hbracket]
  simp only [List.append_assoc]

/-- Channels and the presence of a fallback are read off the text that shows them. -/
theorem summary_inj {channels others : List String} {hasFallback otherHasFallback : Bool} :
    summary channels hasFallback = summary others otherHasFallback ↔
      channels = others ∧ hasFallback = otherHasFallback := by
  constructor
  · intro h
    rw [summary_eq, summary_eq] at h
    obtain ⟨rfl, hrest⟩ := selfDelimiting_channels.behind _ h
    exact ⟨rfl, fallbackPart_inj hrest⟩
  · rintro ⟨rfl, rfl⟩
    rfl

variable {m n : Type → Type}

/-- The channels that are listed are those that have a handler. -/
theorem mem_channels_iff {r : Router m} {channel : String} :
    channel ∈ r.channels ↔ r.handles channel = true := by
  rw [channels, Table.mem_keys_iff, handles, Table.contains, Option.isSome_iff_exists]

/-- The channels are listed in the order of their bytes. -/
theorem pairwise_channels (r : Router m) :
    r.channels.Pairwise fun c d => Utf8.encode c < Utf8.encode d :=
  r.routes.pairwise_keys.imp Utf8.encode_lt_encode_of_compare

/-- Channels in the order of their bytes are the list of a router if they are the same ones. -/
theorem eq_channels_of_perm {r : Router m} {names : List String} (h : names.Perm r.channels)
    (hnames : names.Pairwise fun c d => Utf8.encode c ≤ Utf8.encode d) : names = r.channels :=
  Utf8.eq_of_perm_of_pairwise_encode_le h hnames ((pairwise_channels r).imp List.le_of_lt)

/-- Routers list the same channels exactly if the same ones have a handler. -/
theorem channels_eq_iff {r : Router m} {s : Router n} :
    r.channels = s.channels ↔ ∀ channel, r.handles channel = s.handles channel := by
  constructor
  · intro h channel
    rw [Bool.eq_iff_iff, ← mem_channels_iff, ← mem_channels_iff, h]
  · intro h
    have hperm : r.channels.Perm s.channels :=
      (List.perm_ext_iff_of_nodup r.routes.nodup_keys s.routes.nodup_keys).mpr fun channel =>
        mem_channels_iff.trans (h channel ▸ mem_channels_iff.symm)
    exact eq_channels_of_perm hperm ((pairwise_channels r).imp List.le_of_lt)

/-- Routers are shown alike exactly if the same channels have a handler and both have a fallback or
neither has. -/
theorem describe_eq_iff {r : Router m} {s : Router n} :
    r.describe = s.describe ↔
      (∀ channel, r.handles channel = s.handles channel) ∧
        r.fallback.isSome = s.fallback.isSome := by
  rw [describe, describe, String.ofList_inj, summary_inj, channels_eq_iff]

/-- The text that shows a router, with its quoted names. -/
theorem describe_eq (r : Router m) :
    r.describe =
      "ChannelRouter \x7b channels: [" ++ ", ".intercalate (r.channels.map Quoted.quote) ++
        "], fallback: " ++ (if r.fallback.isSome then "true" else "false") ++ " \x7d" := by
  have hcomma : [',', ' '] = ", ".toList := by decide
  have hnames : String.ofList (List.intercalate [',', ' ']
      (r.channels.map fun c => Quoted.encode c.toList)) =
        ", ".intercalate (r.channels.map Quoted.quote) := by
    rw [hcomma, ofList_intercalate, List.map_map]
    rfl
  unfold describe summary
  simp only [String.ofList_append, String.ofList_toList, hnames]

/-- There is a fallback exactly if one was registered. -/
theorem isSome_fallback_ofRegistrations (registrations : List (Registration m)) :
    (ofRegistrations registrations).fallback.isSome = true ↔
      ∃ g ∈ registrations, g.channel? = none := by
  rw [fallback_ofRegistrations, Option.isSome_iff_ne_none, ne_eq,
    findSome?_reverse_fallback?_eq_none_iff]
  simp only [ne_eq, Classical.not_forall, Classical.not_not, exists_prop]

/-- Routers are shown alike exactly if the same channels, and a fallback or none, were named when
they were built. -/
theorem describe_ofRegistrations_eq_iff {registrations : List (Registration m)}
    {others : List (Registration n)} :
    (ofRegistrations registrations).describe = (ofRegistrations others).describe ↔
      ∀ key, (∃ g ∈ registrations, g.channel? = key) ↔ ∃ g ∈ others, g.channel? = key := by
  have hroutes : (∀ channel, (ofRegistrations registrations).handles channel =
      (ofRegistrations others).handles channel) ↔
        ∀ channel, (∃ g ∈ registrations, g.channel? = some channel) ↔
          ∃ g ∈ others, g.channel? = some channel :=
    forall_congr' fun channel => by
      rw [Bool.eq_iff_iff, handles_ofRegistrations, handles_ofRegistrations]
  rw [describe_eq_iff, hroutes, Bool.eq_iff_iff, isSome_fallback_ofRegistrations,
    isSome_fallback_ofRegistrations, Option.forall, and_comm]

/-- Routers are shown alike exactly if the same channels have a handler and both have a fallback or
neither has: if the same channels, and a fallback or none, were named when they were built, in
whatever order. The text lists the quoted names of the channels that have a handler, each once, in
the order of their bytes, and they have no other such order. -/
theorem describe_canonical (r : Router m) (s : Router n) :
    (r.describe = s.describe ↔
      (∀ channel, r.handles channel = s.handles channel) ∧
        r.fallback.isSome = s.fallback.isSome) ∧
    (∀ (registrations : List (Registration m)) (others : List (Registration n)),
      (ofRegistrations registrations).describe = (ofRegistrations others).describe ↔
        ∀ key, (∃ g ∈ registrations, g.channel? = key) ↔ ∃ g ∈ others, g.channel? = key) ∧
    r.describe =
      "ChannelRouter \x7b channels: [" ++ ", ".intercalate (r.channels.map Quoted.quote) ++
        "], fallback: " ++ (if r.fallback.isSome then "true" else "false") ++ " \x7d" ∧
    (∀ channel, channel ∈ r.channels ↔ r.handles channel = true) ∧
    r.channels.Nodup ∧
    r.channels.Pairwise (fun c d => Utf8.encode c < Utf8.encode d) ∧
    ∀ names : List String, names.Perm r.channels →
      names.Pairwise (fun c d => Utf8.encode c ≤ Utf8.encode d) → names = r.channels := by
  refine ⟨describe_eq_iff, ?_, describe_eq r, ?_, r.routes.nodup_keys, pairwise_channels r, ?_⟩
  · intro registrations others
    exact describe_ofRegistrations_eq_iff
  · intro channel
    exact mem_channels_iff
  · intro names hperm hpairwise
    exact eq_channels_of_perm hperm hpairwise

/-- Two channels, and one channel with their list for a name. -/
theorem describe_canonical_imitated :
    let quiet : Handler Id := fun _ => ()
    let r : Router Id := ofRegistrations [.route "B" quiet, .route "A" quiet]
    let s : Router Id := ofRegistrations [.route "A\", \"B" quiet]
    r.describe ≠ s.describe ∧ ["A", "B"].Perm r.channels ∧ ["A", "B"] = r.channels := by
  intro quiet r s
  obtain ⟨hiff, -, -, -, -, -, hnames⟩ := describe_canonical r s
  have hperm : ["A", "B"].Perm r.channels := by decide
  refine ⟨?_, hperm, hnames _ hperm (by decide)⟩
  intro heq
  exact absurd ((hiff.mp heq).1 "A") (by decide)

end LcmWire.Router
