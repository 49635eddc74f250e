import Mathlib.Data.List.Perm.Subperm
import DocWire.Document.Equality
import DocWire.Proofs.Document.Lookup
import DocWire.Proofs.Document.Shape
import DocWire.Proofs.Number.Exact

namespace DocWire

open Document

mutual

-- A value whose documents are all made by collecting, inserting and erasing fields.
inductive Value.Built : Value → Prop where
  | plain {v : Value} (hv : v.Plain) : Value.Built v
  | document {d : Document} (hd : Document.Built d) : Value.Built (.document d)
  | array {items : List Value} (hitems : ∀ v ∈ items, Value.Built v) : Value.Built (.array items)

inductive Document.Built : Document → Prop where
  | collected {fields : List (String × Value)} (hfields : ∀ field ∈ fields, Value.Built field.2) :
      Document.Built (ofList fields)
  | inserted {d : Document} (hd : Document.Built d) (key : String) {v : Value}
      (hv : Value.Built v) : Document.Built (d.insert key v)
  | erased {d : Document} (hd : Document.Built d) (key : String) : Document.Built (d.erase key)

end

-- A value that stands in another one, at any depth, or is that one.
inductive Value.Within (inner : Value) : Value → Prop where
  | self : Within inner inner
  | field {d : Document} {key : String} {v : Value} (hfield : (key, v) ∈ d.fields)
      (hv : Within inner v) : Within inner (.document d)
  | item {items : List Value} {v : Value} (hitem : v ∈ items) (hv : Within inner v) :
      Within inner (.array items)

-- All of its doubles are numbers.
def Value.FreeOfNaN (v : Value) : Prop :=
  ∀ x : Double, (Value.double x).Within v → x.isNaN = false

-- The fields of one document in it have changed places.
inductive Value.Rearranged : Value → Value → Prop where
  | here {d d' : Document} (hmoved : d.fields.Perm d'.fields) :
      Rearranged (.document d) (.document d')
  | field {before after : List (String × Value)} {key : String} {v v' : Value}
      (hv : Rearranged v v') :
      Rearranged (.document ⟨before ++ (key, v) :: after⟩) (.document ⟨before ++ (key, v') :: after⟩)
  | item {before after : List Value} {v v' : Value} (hv : Rearranged v v') :
      Rearranged (.array (before ++ v :: after)) (.array (before ++ v' :: after))

-- Both documents have the same names, and equal values under each.
def Document.Agree (d e : Document) : Prop :=
  (∀ key, key ∈ d.keys ↔ key ∈ e.keys) ∧
    ∀ key v w, d.get? key = some v → e.get? key = some w → v.equals w = true

theorem Value.Plain.throughout {P : Document → Prop} {v : Value} (hv : v.Plain) :
    v.Throughout P := by
  obtain ⟨hdocument, harray⟩ := hv
  cases v with
  | document d => exact absurd rfl (hdocument d)
  | array items => exact absurd rfl (harray items)
  | _ => trivial

mutual

theorem Value.Built.distinct {v : Value} : v.Built → v.Throughout Distinct
  | .plain hv => hv.throughout
  | .document hd => hd.wellFormed
  | .array hitems => itemsThroughout_iff.mpr fun v hv => (hitems v hv).distinct

theorem Document.Built.wellFormed {d : Document} : d.Built → d.WellFormed
  | .collected hfields => wellFormed_ofList fun field hfield => (hfields field hfield).distinct
  | .inserted hd key hv => wellFormed_insert hd.wellFormed key hv.distinct
  | .erased hd key => wellFormed_erase hd.wellFormed key

end

theorem Value.built_of_distinct (v : Value) : v.Throughout Distinct → v.Built := by
  induction v using Value.induction_on_parts with
  | plain v hv => exact fun _ => .plain hv
  | document d ih =>
      intro h
      obtain ⟨fields⟩ := d
      obtain ⟨hdistinct, hfields⟩ := wellFormed_iff.mp h
      have hbuilt := Document.Built.collected fun field hfield =>
        ih field hfield (hfields field hfield)
      rw [ofList_of_distinct hdistinct] at hbuilt
      exact .document hbuilt
  | array items ih =>
      intro h
      exact .array fun v hv => ih v hv (itemsThroughout_iff.mp h v hv)

-- What is made of fields is what gives every name once, at any depth.
theorem Document.built_iff (d : Document) : d.Built ↔ d.WellFormed := by
  refine ⟨Document.Built.wellFormed, fun h => ?_⟩
  cases Value.built_of_distinct (.document d) h with
  | plain hv => exact absurd rfl (hv.1 d)
  | document hd => exact hd

theorem fieldsFound_iff {fields : List (String × Value)} {other : Document} :
    fieldsFound fields other = true ↔
      ∀ field ∈ fields, ∃ w, other.get? field.1 = some w ∧ field.2.equals w = true := by
  induction fields with
  | nil => simp [fieldsFound]
  | cons field rest ih =>
      obtain ⟨key, v⟩ := field
      rw [fieldsFound, Bool.and_eq_true, ih, List.forall_mem_cons]
      cases other.get? key <;> simp

theorem itemsEqual_iff {as bs : List Value} :
    itemsEqual as bs = true ↔ List.Forall₂ (fun a b => a.equals b = true) as bs := by
  induction as generalizing bs with
  | nil => cases bs <;> simp [itemsEqual]
  | cons a as ih => cases bs <;> simp [itemsEqual, ih]

theorem Document.equals_eq (d e : Document) :
    d.equals e = (decide (d.size = e.size) && fieldsFound d.fields e) := by
  obtain ⟨fields⟩ := d
  rfl

theorem Document.size_eq (d : Document) : d.size = d.keys.length := by
  rw [size, keys, List.length_map]

-- As many names, all of which are found, are the same names.
theorem Document.equals_iff {d e : Document} (hd : d.Distinct) (he : e.Distinct) :
    d.equals e = true ↔ d.Agree e := by
  rw [equals_eq, Bool.and_eq_true, decide_eq_true_eq, fieldsFound_iff, size_eq, size_eq]
  constructor
  · rintro ⟨hsize, hfound⟩
    have hsubset : d.keys ⊆ e.keys := by
      intro key hkey
      obtain ⟨field, hfield, rfl⟩ := List.mem_map.mp hkey
      obtain ⟨w, hw, _⟩ := hfound field hfield
      exact mem_keys_iff.mpr ⟨w, hw⟩
    have hperm : d.keys.Perm e.keys :=
      (List.subperm_of_subset hd hsubset).perm_of_length_le (Nat.le_of_eq hsize.symm)
    refine ⟨fun key => hperm.mem_iff, fun key v w hv hw => ?_⟩
    obtain ⟨found, hfound, hequal⟩ := hfound (key, v) (mem_of_get? hv)
    rw [hw, Option.some.injEq] at hfound
    exact hfound ▸ hequal
  · rintro ⟨hkeys, hvalues⟩
    refine ⟨((List.perm_ext_iff_of_nodup hd he).mpr hkeys).length_eq, fun field hfield => ?_⟩
    obtain ⟨key, v⟩ := field
    have hv := get?_of_mem hd hfield
    obtain ⟨w, hw⟩ := mem_keys_iff.mp ((hkeys key).mp (mem_keys_iff.mpr ⟨v, hv⟩))
    exact ⟨w, hw, hvalues key v w hv hw⟩

namespace Value

-- A document equals nothing but documents, and an array nothing but arrays.
theorem document_equals_iff {d : Document} {v : Value} :
    (Value.document d).equals v = true ↔ ∃ e, v = .document e ∧ d.equals e = true := by
  cases v <;> simp [Value.equals]

theorem array_equals_iff {as : List Value} {v : Value} :
    (Value.array as).equals v = true ↔
      ∃ bs, v = .array bs ∧ List.Forall₂ (fun a b => a.equals b = true) as bs := by
  cases v <;> simp [Value.equals, itemsEqual_iff]

-- Doubles are compared as numbers, and nothing else without parts is equal but not the same.
theorem plain_equals_iff {u v : Value} (hu : u.Plain) :
    u.equals v = true ↔
      (∃ x y, u = .double x ∧ v = .double y ∧ x.equals y = true) ∨
        u = v ∧ ∀ x, u ≠ .double x := by
  cases u with
  | document d => exact absurd rfl (hu.1 d)
  | array items => exact absurd rfl (hu.2 items)
  | _ => cases v <;> simp [Value.equals]

theorem equals_symm {u v : Value} (hu : u.Throughout Distinct) (hv : v.Throughout Distinct)
    (h : u.equals v = true) : v.equals u = true := by
  induction u using Value.induction_on_parts generalizing v with
  | plain u hplain =>
      rcases (plain_equals_iff hplain).mp h with ⟨x, y, rfl, rfl, hxy⟩ | ⟨rfl, _⟩
      · exact Double.equals_symm hxy
      · exact h
  | document d ih =>
      obtain ⟨e, rfl, hde⟩ := document_equals_iff.mp h
      obtain ⟨hd, hfields⟩ := wellFormed_iff.mp hu
      obtain ⟨he, hothers⟩ := wellFormed_iff.mp hv
      obtain ⟨hkeys, hvalues⟩ := (Document.equals_iff hd he).mp hde
      refine (Document.equals_iff he hd).mpr ⟨fun key => (hkeys key).symm, fun key w v hw hv => ?_⟩
      have hfield := mem_of_get? hv
      have hother := mem_of_get? hw
      exact ih _ hfield (hfields _ hfield) (hothers _ hother) (hvalues key v w hv hw)
  | array as ih =>
      obtain ⟨bs, rfl, hitems⟩ := array_equals_iff.mp h
      have has := itemsThroughout_iff.mp hu
      have hbs := itemsThroughout_iff.mp hv
      refine array_equals_iff.mpr ⟨as, rfl, ?_⟩
      clear h hu hv
      induction hitems with
      | nil => exact .nil
      | cons hab _ hrest =>
          simp only [List.forall_mem_cons] at ih has hbs
          exact .cons (ih.1 has.1 hbs.1 hab) (hrest ih.2 has.2 hbs.2)

theorem equals_trans {u v w : Value} (hu : u.Throughout Distinct) (hv : v.Throughout Distinct)
    (hw : w.Throughout Distinct) (huv : u.equals v = true) (hvw : v.equals w = true) :
    u.equals w = true := by
  induction u using Value.induction_on_parts generalizing v w with
  | plain u hplain =>
      rcases (plain_equals_iff hplain).mp huv with ⟨x, y, rfl, rfl, hxy⟩ | ⟨rfl, _⟩
      · have hy : (Value.double y).Plain := ⟨by simp, by simp⟩
        rcases (plain_equals_iff hy).mp hvw with ⟨_, z, hsame, rfl, hyz⟩ | ⟨_, hother⟩
        · cases hsame
          exact Double.equals_trans hxy hyz
        · exact absurd rfl (hother y)
      · exact hvw
  | document d ih =>
      obtain ⟨e, rfl, hde⟩ := document_equals_iff.mp huv
      obtain ⟨f, rfl, hef⟩ := document_equals_iff.mp hvw
      obtain ⟨hd, hfields⟩ := wellFormed_iff.mp hu
      obtain ⟨he, hmiddle⟩ := wellFormed_iff.mp hv
      obtain ⟨hf, hothers⟩ := wellFormed_iff.mp hw
      obtain ⟨hkeys, hvalues⟩ := (Document.equals_iff hd he).mp hde
      obtain ⟨hkeys', hvalues'⟩ := (Document.equals_iff he hf).mp hef
      refine (Document.equals_iff hd hf).mpr
        ⟨fun key => (hkeys key).trans (hkeys' key), fun key x z hx hz => ?_⟩
      obtain ⟨y, hy⟩ := mem_keys_iff.mp ((hkeys key).mp (mem_keys_iff.mpr ⟨x, hx⟩))
      have hfield := mem_of_get? hx
      exact ih _ hfield (hfields _ hfield) (hmiddle _ (mem_of_get? hy)) (hothers _ (mem_of_get? hz))
        (hvalues key x y hx hy) (hvalues' key y z hy hz)
  | array as ih =>
      obtain ⟨bs, rfl, hitems⟩ := array_equals_iff.mp huv
      obtain ⟨cs, rfl, hitems'⟩ := array_equals_iff.mp hvw
      have has := itemsThroughout_iff.mp hu
      have hbs := itemsThroughout_iff.mp hv
      have hcs := itemsThroughout_iff.mp hw
      refine array_equals_iff.mpr ⟨cs, rfl, ?_⟩
      clear hu hv hw huv hvw
      induction hitems generalizing cs with
      | nil =>
          cases hitems'
          exact .nil
      | cons hab _ hrest =>
          cases hitems' with
          | cons hbc hrest' =>
              simp only [List.forall_mem_cons] at ih has hbs hcs
              exact .cons (ih.1 has.1 hbs.1 hcs.1 hab hbc) (hrest ih.2 _ hrest' has.2 hbs.2 hcs.2)

theorem Plain.within_iff {inner v : Value} (hv : v.Plain) : inner.Within v ↔ inner = v := by
  constructor
  · intro h
    cases h with
    | self => rfl
    | field => exact absurd rfl (hv.1 _)
    | item => exact absurd rfl (hv.2 _)
  · rintro rfl
    exact .self

theorem freeOfNaN_document_iff {d : Document} :
    (Value.document d).FreeOfNaN ↔ ∀ field ∈ d.fields, field.2.FreeOfNaN := by
  constructor
  · intro h field hfield x hx
    exact h x (.field hfield hx)
  · intro h x hx
    cases hx with
    | field hfield hv => exact h _ hfield x hv

theorem freeOfNaN_array_iff {items : List Value} :
    (Value.array items).FreeOfNaN ↔ ∀ v ∈ items, v.FreeOfNaN := by
  constructor
  · intro h v hitem x hx
    exact h x (.item hitem hx)
  · intro h x hx
    cases hx with
    | item hitem hv => exact h _ hitem x hv

-- A value fails to equal itself because of a NaN in it, and for no other reason.
theorem equals_self_iff {v : Value} (hv : v.Throughout Distinct) :
    v.equals v = true ↔ v.FreeOfNaN := by
  induction v using Value.induction_on_parts with
  | plain v hplain =>
      rw [plain_equals_iff hplain]
      simp only [FreeOfNaN, hplain.within_iff]
      cases v <;> simp [Double.equals_self_iff]
  | document d ih =>
      obtain ⟨hd, hfields⟩ := wellFormed_iff.mp hv
      rw [Value.equals, Document.equals_iff hd hd, freeOfNaN_document_iff]
      constructor
      · rintro ⟨_, hvalues⟩ ⟨key, v⟩ hfield
        have hfound := get?_of_mem hd hfield
        exact (ih _ hfield (hfields _ hfield)).mp (hvalues key v v hfound hfound)
      · intro h
        refine ⟨fun key => Iff.rfl, fun key v w hv hw => ?_⟩
        rw [hv, Option.some.injEq] at hw
        have hfield := mem_of_get? hv
        exact hw ▸ (ih _ hfield (hfields _ hfield)).mpr (h _ hfield)
  | array items ih =>
      have hitems := itemsThroughout_iff.mp hv
      rw [Value.equals, itemsEqual_iff, List.forall₂_same, freeOfNaN_array_iff]
      exact forall₂_congr fun v hitem => ih v hitem (hitems v hitem)

-- Where the fields of a document stand does not matter, at whatever depth the document does.
theorem Rearranged.equals_eq {u u' : Value} (h : u.Rearranged u') (v : Value) :
    u'.equals v = u.equals v := by
  rw [Bool.eq_iff_iff]
  induction h generalizing v with
  | @here d d' hmoved =>
      have hsize : d'.size = d.size := hmoved.symm.length_eq
      simp only [document_equals_iff, Document.equals_eq, Bool.and_eq_true, fieldsFound_iff, hsize,
        hmoved.mem_iff]
  | field _ ih =>
      simp only [document_equals_iff, Document.equals_eq, Bool.and_eq_true, fieldsFound_iff,
        Document.size, List.length_append, List.length_cons, List.forall_mem_append,
        List.forall_mem_cons, ih]
  | @item before after a a' _ ih =>
      have hitems : ∀ bs, itemsEqual (before ++ a' :: after) bs = true ↔
          itemsEqual (before ++ a :: after) bs = true := by
        induction before with
        | nil => intro bs; cases bs <;> simp [itemsEqual, ih]
        | cons first rest ihrest => intro bs; cases bs <;> simp [itemsEqual, ihrest]
      simp only [array_equals_iff, ← itemsEqual_iff, hitems]

theorem Rearranged.distinct {u u' : Value} (h : u.Rearranged u') (hu : u.Throughout Distinct) :
    u'.Throughout Distinct := by
  induction h with
  | @here d d' hmoved =>
      obtain ⟨hd, hfields⟩ := wellFormed_iff.mp hu
      have hkeys : d.keys.Perm d'.keys := hmoved.map Prod.fst
      have hd' : d'.Distinct := hkeys.nodup hd
      exact wellFormed_iff.mpr ⟨hd',
        fun field hfield => hfields field (hmoved.mem_iff.mpr hfield)⟩
  | @field before after key v v' _ ih =>
      obtain ⟨hd, hfields⟩ := wellFormed_iff.mp hu
      have hkeys : Document.keys ⟨before ++ (key, v') :: after⟩ =
          Document.keys ⟨before ++ (key, v) :: after⟩ := by
        simp [Document.keys]
      refine wellFormed_iff.mpr ⟨?_, ?_⟩
      · rw [Document.Distinct, hkeys]
        exact hd
      · simp only [List.forall_mem_append, List.forall_mem_cons] at hfields ⊢
        exact ⟨hfields.1, ih hfields.2.1, hfields.2.2⟩
  | item _ ih =>
      have hitems := itemsThroughout_iff.mp hu
      refine itemsThroughout_iff.mpr ?_
      simp only [List.forall_mem_append, List.forall_mem_cons] at hitems ⊢
      exact ⟨hitems.1, ih hitems.2.1, hitems.2.2⟩

theorem equals_comm {u v : Value} (hu : u.Throughout Distinct) (hv : v.Throughout Distinct) :
    u.equals v = v.equals u :=
  Bool.eq_iff_iff.mpr ⟨equals_symm hu hv, equals_symm hv hu⟩

-- Equality of values that are put together field by field. But for a NaN, which no value with
-- one in it survives, it is an equivalence; it looks at the names of documents and at what stands
-- under each, never at their order, and at the items of arrays one by one.
theorem equals_up_to_order {u v w : Value} (hu : u.Built) (hv : v.Built) (hw : w.Built)
    {d e : Document} (hd : d.Built) (he : e.Built) :
    (u.equals v = true → v.equals u = true) ∧
      (u.equals v = true → v.equals w = true → u.equals w = true) ∧
      (u.equals u = true ↔ u.FreeOfNaN) ∧
      ((Value.document d).equals (.document e) = d.equals e ∧ (d.equals e = true ↔ d.Agree e)) ∧
      (∀ u' v', u.Rearranged u' → v.Rearranged v' → u'.equals v' = u.equals v) ∧
      (∀ as bs, (Value.array as).equals (.array bs) = true ↔
        List.Forall₂ (fun a b => a.equals b = true) as bs) ∧
      ∀ x y, (Value.double x).equals (.double y) = true ↔
        ∃ n, x.number? = some n ∧ y.number? = some n := by
  have hd' := (wellFormed_iff.mp hd.wellFormed).1
  have he' := (wellFormed_iff.mp he.wellFormed).1
  refine ⟨equals_symm hu.distinct hv.distinct, equals_trans hu.distinct hv.distinct hw.distinct,
    equals_self_iff hu.distinct, ⟨rfl, Document.equals_iff hd' he'⟩, fun u' v' hu' hv' => ?_,
    fun as bs => itemsEqual_iff, fun x y => Double.equals_iff_number x y⟩
  calc u'.equals v' = u.equals v' := hu'.equals_eq v'
    _ = v'.equals u := equals_comm hu.distinct (hv'.distinct hv.distinct)
    _ = v.equals u := hv'.equals_eq u
    _ = u.equals v := equals_comm hv.distinct hu.distinct

-- Two documents of the same contents, with their fields turned round and a zero of either sign.
def tally : Document :=
  ⟨[("sum", .double .zero), ("parts", .array [.document ⟨[("x", .null), ("y", .boolean true)]⟩])]⟩

def turnedTally : Document :=
  ⟨[("parts", .array [.document ⟨[("y", .boolean true), ("x", .null)]⟩]),
    ("sum", .double ⟨0x8000000000000000⟩)]⟩

theorem turnedTally_equals :
    tally.Built ∧ turnedTally.Built ∧ (Value.document turnedTally).equals (.document tally) = true ∧
      (Value.document tally).FreeOfNaN ∧ tally.Agree turnedTally := by
  have htally : tally.Built := by
    rw [Document.built_iff]
    simp [tally, Document.WellFormed, Document.Throughout, fieldsThroughout, Value.Throughout,
      itemsThroughout, Document.Distinct, Document.keys]
  have hturned : turnedTally.Built := by
    rw [Document.built_iff]
    simp [turnedTally, Document.WellFormed, Document.Throughout, fieldsThroughout,
      Value.Throughout, itemsThroughout, Document.Distinct, Document.keys]
  obtain ⟨hsymm, _, hself, ⟨_, hagree⟩, _⟩ := equals_up_to_order (.document htally)
    (.document hturned) (.document htally) htally hturned
  exact ⟨htally, hturned, hsymm (by decide), hself.mp (by decide), hagree.mp (by decide)⟩

end Value

end DocWire
