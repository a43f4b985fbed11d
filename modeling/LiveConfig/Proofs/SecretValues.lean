import LiveConfig.Api
import LiveConfig.Proofs.Base64
import LiveConfig.Proofs.Building
import LiveConfig.Store

/-!
# What is stored is what is bound

An entry of a secret is bound to a text if and only if the canonical Base64 form of the UTF-8 bytes
of that text is stored under it; if nothing of that kind is stored then the build fails and blames
the entry. Two writers store this form, a store that is given texts and the cluster, whose values
are bytes. The entries of config maps are bound as they are.

All of this is about an entry whose turn it is (`Reached`) and whose property is left alone by what
comes after it (`Lasting`). It is no document: of a document only the properties are bound.

## Main definitions

* `Snapshot.Reached` — everything before an entry can be read
* `Snapshot.Lasting` — everything after an entry can be read and does not replace its property
* `Snapshot.Binds` — a list of sources has a value at a key

## Main results

* `decodeSecret_eq_ok_iff` — which stored values have which text
* `Snapshot.binds_iff` — an entry is bound to its text
* `Snapshot.binds_stored_text` — what is bound in terms of what is stored
-/

namespace LiveConfig

open Text

/-! ### The text of a stored value -/

/-- **A stored value has a text** if and only if it is the canonical form of its bytes. -/
theorem decodeSecret_eq_ok_iff {stored t : String} :
    decodeSecret stored = .ok t ↔ Base64.Canonical (Utf8.encode t.toList) stored.toList := by
  rw [Base64.canonical_iff, decodeSecret]
  constructor
  · intro h
    split at h
    case h_1 => cases h
    case h_2 bytes hbytes =>
      split at h
      case h_1 => cases h
      case h_2 cs hcs =>
        cases h
        rw [Base64.decode_eq_ok_iff.mp hbytes, Utf8.decode_eq_ok_iff.mp hcs, String.toList_ofList]
  · intro h
    rw [Base64.decode_eq_ok_iff.mpr h]
    simp only [Utf8.decode_eq_ok_iff.mpr rfl, String.ofList_toList]

/-- Bytes that were written in Base64 have the text whose bytes they are. -/
theorem decodeSecret_encode {bytes : List UInt8} {t : String} :
    decodeSecret (String.ofList (Base64.encode bytes)) = .ok t ↔ bytes = Utf8.encode t.toList := by
  rw [decodeSecret_eq_ok_iff, Base64.canonical_iff, String.toList_ofList]
  exact ⟨Base64.encode_injective, congrArg Base64.encode⟩

/-- A text that was written is read back. -/
theorem decodeSecret_encodeSecret (t : String) : decodeSecret (encodeSecret t) = .ok t :=
  decodeSecret_encode.mpr rfl

/-- What a store keeps of the texts that are put into a secret. -/
theorem Store.data_of_put {s : Store} {k : ObjectKey} {labels : Labels}
    {data : SortedMap String String} {x : Object} (hk : k.kind = .secret)
    (h : (s.put k labels data).objects.get? k = some x) : x.data = data.map encodeSecret := by
  rw [put, hk] at h
  simp only at h
  rw [get?_apply, if_pos Std.ReflCmp.compare_self] at h
  cases h
  rfl

namespace Object

variable {x : Object}

theorem entryText_of_configMap (h : x.key.kind = .configMap) (entry stored : String) :
    x.entryText entry stored = .ok stored := by
  rw [entryText, h]

theorem entryText_of_secret (h : x.key.kind = .secret) {entry stored t : String} :
    x.entryText entry stored = .ok t ↔ decodeSecret stored = .ok t := by
  rw [entryText, h, mapError_eq_ok_iff]

/-- An entry that is no document yields its text under its own name, and nothing else. -/
theorem yields_iff_of_plain {entry stored key t : String} (hget : x.data.get? entry = some stored)
    (hplain : ∀ format, ¬ Document.Announces entry format) :
    x.Yields entry key t ↔ key = entry ∧ x.entryText entry stored = .ok t := by
  constructor
  · rintro ⟨stored', hget', ⟨htext, -⟩ | ⟨-, hformat, -, -⟩⟩
    · obtain rfl : stored = stored' := Option.some.inj (hget.symm.trans hget')
      exact ⟨rfl, htext⟩
    · exact absurd hformat (hplain _)
  · rintro ⟨rfl, htext⟩
    exact ⟨stored, hget, .text htext hplain⟩

end Object

/-! ### The turn of an entry -/

namespace Snapshot

variable {fetch : ObjectKey → Option Object} {front rear : List Layer} {l : Layer} {x : Object}
  {entry stored : String}

/-- It is the turn of an entry that is no document: the sources before its own and the entries
before it can be read. -/
structure Reached (fetch : ObjectKey → Option Object) (front : List Layer) (l : Layer) (x : Object)
    (entry stored : String) : Prop where
  object : fetch l.key = some x
  stored : x.data.get? entry = some stored
  plain : ∀ format, ¬ Document.Announces entry format
  front : ∃ s, build fetch front = .ok s
  earlier : ∀ e v f, e < entry → x.data.get? e = some v → ¬ x.Faulty e v f

/-- What comes after an entry can be read and does not replace its property. -/
structure Lasting (fetch : ObjectKey → Option Object) (l : Layer) (x : Object) (entry : String)
    (rear : List Layer) : Prop where
  later : ∀ e v f, entry < e → x.data.get? e = some v → ¬ x.Faulty e v f
  alone : ∀ e v, entry < e → ¬ x.Yields e entry v
  rear : ∃ s, build fetch rear = .ok s ∧
    s.properties.contains (qualify l.qualifier entry) = false

/-- A list of sources has a value at a key. -/
def Binds (fetch : ObjectKey → Option Object) (ls : List Layer) (k v : String) : Prop :=
  ∃ s, build fetch ls = .ok s ∧ s.properties.get? k = some v

/-- What is wrong with an entry is wrong with the build. -/
theorem build_of_faulty (h : Reached fetch front l x entry stored) {f : Failure}
    (hfaulty : x.Faulty entry stored f) (rear : List Layer) :
    build fetch (front ++ l :: rear) = .error f := by
  obtain ⟨a, ha⟩ := h.front
  have hfirst : x.FirstFault f :=
    ⟨entry, stored, h.stored, hfaulty, fun e v g hget hg hlt => h.earlier e v g hlt hget hg⟩
  rw [build_append, ha, ← List.singleton_append, build_append,
    (build_singleton_eq_error_iff h.object).mpr hfirst]
  rfl

/-- An object can be read if one of its entries has a text and all others can be read. -/
theorem not_firstFault_of_text (h : Reached fetch front l x entry stored)
    (hlast : Lasting fetch l x entry rear) {t : String}
    (htext : x.entryText entry stored = .ok t) (f : Failure) : ¬ x.FirstFault f := by
  rintro ⟨e, v, hget, hfaulty, -⟩
  rcases Std.lt_trichotomy e entry with hlt | rfl | hlt
  · exact h.earlier e v f hlt hget hfaulty
  · obtain rfl : stored = v := Option.some.inj (h.stored.symm.trans hget)
    have herror := Object.entryProperties_eq_error_iff.mpr hfaulty
    rw [Object.entryProperties, htext, Document.Format.ofName?_eq_none_iff.mpr h.plain] at herror
    cases herror
  · exact hlast.later e v f hlt hget hfaulty

/-- The text of an entry is what its source has under the name of the entry. -/
theorem shows_of_text (h : Reached fetch front l x entry stored)
    (hlast : Lasting fetch l x entry rear) {t : String}
    (htext : x.entryText entry stored = .ok t) :
    x.Shows l.qualifier (qualify l.qualifier entry) t := by
  refine ⟨entry, entry, (Object.yields_iff_of_plain h.stored h.plain).mpr ⟨rfl, htext⟩,
    qualified_iff.mpr rfl, ?_⟩
  intro e key v hyields hkey
  obtain rfl := qualify_inj (qualified_iff.mp hkey)
  rcases Std.lt_trichotomy e key with hlt | rfl | hlt
  · exact Or.inr hlt
  · have hv := ((Object.yields_iff_of_plain h.stored h.plain).mp hyields).2
    exact Or.inl ⟨rfl, rfl, Except.ok.inj (hv.symm.trans htext)⟩
  · exact absurd hyields (hlast.alone e v hlt)

/-- The text of an entry is bound to its name under the qualifier of the source. -/
theorem binds_of_text (h : Reached fetch front l x entry stored)
    (hlast : Lasting fetch l x entry rear) {t : String}
    (htext : x.entryText entry stored = .ok t) :
    Binds fetch (front ++ l :: rear) (qualify l.qualifier entry) t := by
  obtain ⟨a, ha⟩ := h.front
  obtain ⟨b, hb, hkey⟩ := hlast.rear
  obtain ⟨p, hp⟩ : ∃ p, build fetch [l] = .ok p :=
    ⟨_, (build_singleton_eq_ok_iff h.object).mpr ⟨not_firstFault_of_text h hlast htext, rfl⟩⟩
  have hvalue : p.properties.get? (qualify l.qualifier entry) = some t := by
    obtain ⟨-, rfl⟩ := (build_singleton_eq_ok_iff h.object).mp hp
    exact get?_properties_iff.mpr (shows_of_text h hlast htext)
  have hnone : b.properties.get? (qualify l.qualifier entry) = none := by
    simpa [SortedMap.contains] using hkey
  refine ⟨(b.above p).above a, ?_, ?_⟩
  · rw [build_append, ha, ← List.singleton_append, build_append, hp, hb]
    rfl
  · rw [above, SortedMap.get?_override, above, SortedMap.get?_override, hnone, hvalue]
    rfl

/-- **An entry is bound to its text**, and to nothing else. -/
theorem binds_iff (h : Reached fetch front l x entry stored)
    (hlast : Lasting fetch l x entry rear) {t : String} :
    Binds fetch (front ++ l :: rear) (qualify l.qualifier entry) t ↔
      x.entryText entry stored = .ok t := by
  refine ⟨?_, binds_of_text h hlast⟩
  rintro ⟨s, hs, hget⟩
  cases htext : x.entryText entry stored with
  | error f =>
    obtain ⟨hsecret, reason, hvalue, rfl⟩ := Object.entryText_eq_error_iff.mp htext
    rw [build_of_faulty h (.undecodable hsecret hvalue)] at hs
    cases hs
  | ok t' =>
    obtain ⟨s', hs', hget'⟩ := binds_of_text h hlast htext
    obtain rfl := Except.ok.inj (hs.symm.trans hs')
    exact congrArg Except.ok (Option.some.inj (hget'.symm.trans hget))

/-- A build that has no text for an entry of a secret fails and blames the entry. -/
theorem build_of_no_text (h : Reached fetch front l x entry stored) (hsecret : x.key.kind = .secret)
    (htext : ∀ t, decodeSecret stored ≠ .ok t) :
    ∃ reason, ∀ rear, build fetch (front ++ l :: rear) =
      .error (.undecodable x.key entry reason) := by
  cases hvalue : decodeSecret stored with
  | ok t => exact absurd hvalue (htext t)
  | error reason => exact ⟨reason, build_of_faulty h (.undecodable hsecret hvalue)⟩

/-- **What is stored is what is bound.** Let it be the turn of an entry that is no document.

An entry of a secret is bound to a text if and only if the canonical Base64 form of the UTF-8 bytes
of the text is stored under it, provided that nothing that comes after it fails or replaces its
property; and if there is no such text then the build fails and blames the entry, whatever comes
after it. So if a store was given a text for the entry then the entry is bound to that text; and if
it comes from bytes that the cluster gave then it is bound to the text whose bytes they are, and the
build fails and blames it if they are the bytes of no text. An entry of a config map is bound to
what is stored under it. -/
theorem binds_stored_text (h : Reached fetch front l x entry stored) :
    (x.key.kind = .secret →
      (∀ rear, Lasting fetch l x entry rear → ∀ t : String,
        Binds fetch (front ++ l :: rear) (qualify l.qualifier entry) t ↔
          Base64.Canonical (Utf8.encode t.toList) stored.toList) ∧
      ((∀ t : String, ¬ Base64.Canonical (Utf8.encode t.toList) stored.toList) →
        ∃ reason, ∀ rear, build fetch (front ++ l :: rear) =
          .error (.undecodable x.key entry reason))) ∧
    (∀ (s : Store) (labels : Labels) (data : SortedMap String String) (t : String),
      x.key.kind = .secret → (s.put x.key labels data).objects.get? x.key = some x →
      data.get? entry = some t → ∀ rear, Lasting fetch l x entry rear →
        Binds fetch (front ++ l :: rear) (qualify l.qualifier entry) t) ∧
    (∀ (space : String) (m : Api.Metadata) (data : SortedMap String (List UInt8))
      (bytes : List UInt8), x = Api.Resource.object space (.secret m (some data)) →
      data.get? entry = some bytes →
      (∀ t : String, bytes = Utf8.encode t.toList → ∀ rear, Lasting fetch l x entry rear →
        Binds fetch (front ++ l :: rear) (qualify l.qualifier entry) t) ∧
      ((∀ t : String, bytes ≠ Utf8.encode t.toList) →
        ∃ reason, ∀ rear, build fetch (front ++ l :: rear) =
          .error (.undecodable x.key entry reason))) ∧
    (x.key.kind = .configMap → ∀ rear, Lasting fetch l x entry rear → ∀ t : String,
      Binds fetch (front ++ l :: rear) (qualify l.qualifier entry) t ↔ t = stored) := by
  refine ⟨fun hsecret => ⟨?_, ?_⟩, ?_, ?_, ?_⟩
  · intro rear hlast t
    rw [binds_iff h hlast, Object.entryText_of_secret hsecret, decodeSecret_eq_ok_iff]
  · intro hnone
    exact build_of_no_text h hsecret fun t ht => hnone t (decodeSecret_eq_ok_iff.mp ht)
  · intro s labels data t hsecret hput hdata rear hlast
    have hstored : stored = encodeSecret t := by
      have hget := h.stored
      rw [Store.data_of_put hsecret hput, SortedMap.get?_map, hdata] at hget
      exact (Option.some.inj hget).symm
    rw [binds_iff h hlast, Object.entryText_of_secret hsecret, hstored]
    exact decodeSecret_encodeSecret t
  · intro space m data bytes hx hdata
    have hsecret : x.key.kind = .secret := by
      rw [hx]
      rfl
    have hstored : stored = String.ofList (Base64.encode bytes) := by
      have hget := h.stored
      rw [hx, Api.Resource.object, Api.Metadata.object, Option.getD_some, SortedMap.get?_map,
        hdata] at hget
      exact (Option.some.inj hget).symm
    constructor
    · intro t hbytes rear hlast
      rw [binds_iff h hlast, Object.entryText_of_secret hsecret, hstored]
      exact decodeSecret_encode.mpr hbytes
    · intro hnone
      refine build_of_no_text h hsecret fun t ht => hnone t ?_
      rw [hstored] at ht
      exact decodeSecret_encode.mp ht
  · intro hconfig rear hlast t
    rw [binds_iff h hlast, Object.entryText_of_configMap hconfig, Except.ok.injEq, eq_comm]

/-! ### Objects with one entry -/

theorem eq_of_single {data : SortedMap String String} (hdata : data = .ofList [(entry, stored)])
    {e v : String} (h : data.get? e = some v) : e = entry := by
  rw [hdata, SortedMap.get?_eq_some_iff] at h
  exact congrArg Prod.fst (List.mem_singleton.mp h)

theorem reached_single (hobject : fetch l.key = some x)
    (hdata : x.data = .ofList [(entry, stored)])
    (hplain : ∀ format, ¬ Document.Announces entry format) :
    Reached fetch [] l x entry stored where
  object := hobject
  stored := by
    rw [hdata, SortedMap.get?_eq_some_iff]
    exact List.mem_singleton_self _
  plain := hplain
  front := ⟨∅, rfl⟩
  earlier _ _ _ hlt hget _ := String.lt_irrefl _ (eq_of_single hdata hget ▸ hlt)

theorem lasting_single (hdata : x.data = .ofList [(entry, stored)]) :
    Lasting fetch l x entry [] where
  later _ _ _ hlt hget _ := String.lt_irrefl _ (eq_of_single hdata hget ▸ hlt)
  alone := by
    rintro e v hlt ⟨stored', hget, -⟩
    exact String.lt_irrefl _ (eq_of_single hdata hget ▸ hlt)
  rear := ⟨∅, rfl, rfl⟩

/-- A secret with one entry. -/
def vault (stored : String) : Object :=
  ⟨⟨.secret, "ns", "vault"⟩, ∅, .ofList [("pin", stored)], "1"⟩

/-- An accent is two bytes. They are bound if they were put as a text or came from the cluster; a
bit too many in the last symbol is noticed, and so is half of the bytes. In a config map there is
nothing to be decoded. -/
theorem binds_stored_text_accent :
    let l : Layer := ⟨⟨.secret, "ns", "vault"⟩, some "db"⟩
    let m : Api.Metadata := ⟨some "vault", none, none, some "1"⟩
    let given (bytes : List UInt8) : Object :=
      Api.Resource.object "ns" (.secret m (some (.ofList [("pin", bytes)])))
    let plain : Object := ⟨⟨.configMap, "ns", "plain"⟩, ∅, .ofList [("pin", "w6k=")], "1"⟩
    Base64.Canonical (Utf8.encode "é".toList) "w6k=".toList ∧
    Binds (fun _ => some (vault "w6k=")) [l] "db.pin" "é" ∧
    Binds ((∅ : Store).put l.key ∅ (.ofList [("pin", "é")])).objects.get? [l] "db.pin" "é" ∧
    Binds (fun _ => some (given [0xC3, 0xA9])) [l] "db.pin" "é" ∧
    (∃ reason, build (fun _ => some (vault "w6l=")) [l] =
      .error (.undecodable l.key "pin" reason)) ∧
    (∃ reason, build (fun _ => some (given [0xC3])) [l] =
      .error (.undecodable l.key "pin" reason)) ∧
    Binds (fun _ => some plain) [l] "db.pin" "w6k=" := by
  intro l m given plain
  have hpin : ∀ format, ¬ Document.Announces "pin" format :=
    Document.Format.ofName?_eq_none_iff.mp (by decide)
  have hcanonical : Base64.Canonical (Utf8.encode "é".toList) "w6k=".toList :=
    decodeSecret_eq_ok_iff.mp (by rfl)
  have hbits (t : String) : ¬ Base64.Canonical (Utf8.encode t.toList) "w6l=".toList := by
    have herror : decodeSecret "w6l=" = .error "Invalid last symbol 108, offset 2." := by rfl
    rw [← decodeSecret_eq_ok_iff, herror]
    exact nofun
  have hhalf (t : String) : [0xC3] ≠ Utf8.encode t.toList := by
    have herror : Utf8.decode [0xC3] = .error (.incomplete 0) := by rfl
    rw [ne_eq, ← Utf8.decode_eq_ok_iff, herror]
    exact nofun
  have hstored (stored : String) :
      Reached (fun _ => some (vault stored)) [] l (vault stored) "pin" stored :=
    reached_single rfl rfl hpin
  have hgiven (bytes : List UInt8) : Reached (fun _ => some (given bytes)) [] l (given bytes) "pin"
      (String.ofList (Base64.encode bytes)) :=
    reached_single rfl rfl hpin
  have hplain : Reached (fun _ => some plain) [] l plain "pin" "w6k=" :=
    reached_single rfl rfl hpin
  let y : Object := ⟨l.key, ∅, .ofList [("pin", encodeSecret "é")], "1"⟩
  have hput : ((∅ : Store).put l.key ∅ (.ofList [("pin", "é")])).objects.get? l.key = some y := by
    decide
  obtain ⟨hsecret, -, -, -⟩ := binds_stored_text (hstored "w6k=")
  obtain ⟨hstray, -, -, -⟩ := binds_stored_text (hstored "w6l=")
  obtain ⟨-, hwritten, -, -⟩ := binds_stored_text (reached_single (x := y) hput rfl hpin)
  obtain ⟨-, -, hwhole, -⟩ := binds_stored_text (hgiven [0xC3, 0xA9])
  obtain ⟨-, -, hbroken, -⟩ := binds_stored_text (hgiven [0xC3])
  obtain ⟨-, -, -, hconfig⟩ := binds_stored_text hplain
  refine ⟨hcanonical, ?_, ?_, ?_, ?_, ?_, ?_⟩
  · exact ((hsecret rfl).1 [] (lasting_single rfl) "é").mpr hcanonical
  · exact hwritten ∅ ∅ _ "é" rfl hput (by rfl) [] (lasting_single rfl)
  · exact (hwhole "ns" m _ _ rfl (by rfl)).1 "é" (by rfl) [] (lasting_single rfl)
  · obtain ⟨reason, hreason⟩ := (hstray rfl).2 hbits
    exact ⟨reason, hreason []⟩
  · obtain ⟨reason, hreason⟩ := (hbroken "ns" m _ _ rfl (by rfl)).2 hhalf
    exact ⟨reason, hreason []⟩
  · exact (hconfig rfl [] (lasting_single rfl) "w6k=").mpr rfl

end Snapshot

end LiveConfig
