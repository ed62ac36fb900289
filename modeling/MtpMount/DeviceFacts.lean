import MtpMount.Supervisor
import MtpMount.Text

/-!
# The mount key

What the USB watch reports about a device, and the one string made of it that is
both the name of its mount point and its identity.

* `deviceDirName_safe`: the name is one short component of a path, whatever the
  device reports, and blanks around the serial do not count.
-/

namespace MtpMount

/-- Longest device directory name the daemon will produce. -/
def maxDirName : Nat := 64

/-- What stays of a serial; anything else becomes `_`. -/
def isNameChar (c : Char) : Bool := c.isAlphanum || c = '.' || c = '_' || c = '-'

/-- A `u16` as `{:04x}`. -/
def hex (n : UInt16) : String := .ofList ((Nat.toDigits 16 n.toNat).leftpad 4 '0')

def usbForm (vendorId productId : UInt16) (locationId : UInt64) : String :=
  s!"usb-{hex vendorId}-{hex productId}-{locationId.toNat}"

/-- The directory name a device gets under the mount root. -/
def deviceDirName (serial : Option String) (vendorId productId : UInt16) (locationId : UInt64) :
    String :=
  match (serial.map trim).filter (· ≠ "") with
  | none => usbForm vendorId productId locationId
  | some serial =>
    let sanitized := (serial.toList.take maxDirName).map fun c => if isNameChar c then c else '_'
    if sanitized.all (· = '.') then usbForm vendorId productId locationId
    else .ofList sanitized

/-- What the watch reported about one device, as far as the daemon looks at it. -/
structure DeviceFacts where
  /-- Serial number, exactly as reported (untrimmed). -/
  serial : Option String
  vendorId : UInt16
  productId : UInt16
  /-- USB topology position: which port the device is in. -/
  locationId : UInt64
  /-- What the daemon calls the device in its log. -/
  label : String
  deriving DecidableEq

namespace DeviceFacts

/-- The serial the key derivation actually uses. -/
def usableSerial (d : DeviceFacts) : Option String := (d.serial.map trim).filter (· ≠ "")

/-- Directory name and device identity in one. -/
def key (d : DeviceFacts) : String :=
  deviceDirName d.usableSerial d.vendorId d.productId d.locationId

def headline (d : DeviceFacts) : String :=
  if d.label = "" then s!"MTP device {d.key}" else d.label

/-- What the supervisor is handed for this device. -/
def ident (d : DeviceFacts) : DeviceIdent := ⟨d.key, d.headline, d.usableSerial⟩

@[simp] theorem ident_key (d : DeviceFacts) : d.ident.key = d.key := rfl

/-- What the watch tells devices apart by. -/
def address (d : DeviceFacts) : Option String × UInt16 × UInt16 × UInt64 :=
  (d.serial, d.vendorId, d.productId, d.locationId)

theorem key_of_address {d d' : DeviceFacts} (h : d.address = d'.address) : d.key = d'.key := by
  simp only [address, Prod.mk.injEq] at h
  obtain ⟨hs, hv, hp, hl⟩ := h
  rw [key, key, usableSerial, usableSerial, hs, hv, hp, hl]

end DeviceFacts

/-! ## A name is one component -/

/-- A string that is one component of a path, below the directory it is joined to. -/
def IsComponent (name : String) : Prop :=
  (∀ c ∈ name.toList, isNameChar c = true) ∧ ∃ c ∈ name.toList, c ≠ '.'

theorem isNameChar_digitChar {n : Nat} (h : n < 16) : isNameChar (Nat.digitChar n) = true := by
  have hall : ∀ i : Fin 16, isNameChar (Nat.digitChar i) = true := by decide
  exact hall ⟨n, h⟩

/-- The digits of a number are digits. -/
theorem mem_toDigits {b n : Nat} {c : Char} (hb : 1 < b) (hc : c ∈ Nat.toDigits b n) :
    ∃ d < b, c = Nat.digitChar d := by
  induction n using Nat.strong_induction_on with
  | _ n ih =>
    rw [Nat.toDigits_eq_if hb] at hc
    split at hc
    · exact ⟨n, ‹_›, List.mem_singleton.mp hc⟩
    · rcases List.mem_append.mp hc with hc | hc
      · exact ih (n / b) (Nat.div_lt_self (by omega) hb) hc
      · exact ⟨n % b, Nat.mod_lt n (by omega), List.mem_singleton.mp hc⟩

theorem mem_hex {n : UInt16} {c : Char} (hc : c ∈ (hex n).toList) :
    ∃ d < 16, c = Nat.digitChar d := by
  simp only [hex, String.toList_ofList, List.leftpad, List.mem_append, List.mem_replicate] at hc
  rcases hc with ⟨-, rfl⟩ | hc
  · exact ⟨0, by decide, rfl⟩
  · exact mem_toDigits (by decide) hc

theorem usbForm_toList (vendorId productId : UInt16) (locationId : UInt64) :
    (usbForm vendorId productId locationId).toList =
      ['u', 's', 'b', '-'] ++ ((hex vendorId).toList ++ '-' :: ((hex productId).toList ++
        '-' :: Nat.toDigits 10 locationId.toNat)) := by
  simp [usbForm, toString]

theorem usbForm_isComponent (vendorId productId : UInt16) (locationId : UInt64) :
    IsComponent (usbForm vendorId productId locationId) := by
  rw [IsComponent, usbForm_toList]
  constructor
  · intro c hc
    simp only [List.mem_append, List.mem_cons, List.not_mem_nil, or_false] at hc
    rcases hc with (rfl | rfl | rfl | rfl) | hc | rfl | hc | rfl | hc
    · rfl
    · rfl
    · rfl
    · rfl
    · obtain ⟨d, hd, rfl⟩ := mem_hex hc
      exact isNameChar_digitChar hd
    · rfl
    · obtain ⟨d, hd, rfl⟩ := mem_hex hc
      exact isNameChar_digitChar hd
    · rfl
    · obtain ⟨d, hd, rfl⟩ := mem_toDigits (by decide) hc
      exact isNameChar_digitChar (by omega)
  · exact ⟨'-', by simp, by decide⟩

/-- Whatever a device reports, its name stays below the mount root. -/
theorem deviceDirName_isComponent (serial : Option String) (vendorId productId : UInt16)
    (locationId : UInt64) : IsComponent (deviceDirName serial vendorId productId locationId) := by
  unfold deviceDirName
  split
  · exact usbForm_isComponent ..
  · dsimp only
    split
    · exact usbForm_isComponent ..
    · rename_i hdots
      rw [IsComponent, String.toList_ofList]
      constructor
      · intro c hc
        obtain ⟨a, -, rfl⟩ := List.mem_map.mp hc
        split
        · assumption
        · rfl
      · simpa using hdots

theorem hex_length (n : UInt16) : (hex n).toList.length = 4 := by
  have hlt : n.toNat < 16 ^ 4 := n.toNat_lt
  have hle := (Nat.length_toDigits_le_iff (b := 16) (k := 4) (by decide) (by decide)).mpr hlt
  rw [hex, String.toList_ofList, List.length_leftpad]
  omega

/-- The place on the bus has at most 20 digits. -/
theorem usbForm_length (vendorId productId : UInt16) (locationId : UInt64) :
    (usbForm vendorId productId locationId).toList.length ≤ 34 := by
  have hlt : locationId.toNat < 10 ^ 20 := Nat.lt_trans locationId.toNat_lt (by decide)
  have hle := (Nat.length_toDigits_le_iff (b := 10) (k := 20) (by decide) (by decide)).mpr hlt
  simp only [usbForm_toList, List.length_append, List.length_cons, List.length_nil, hex_length]
  omega

theorem deviceDirName_length (serial : Option String) (vendorId productId : UInt16)
    (locationId : UInt64) :
    (deviceDirName serial vendorId productId locationId).toList.length ≤ maxDirName := by
  have hform := usbForm_length vendorId productId locationId
  have hmax : 34 ≤ maxDirName := by decide
  unfold deviceDirName
  split
  · omega
  · dsimp only
    split
    · omega
    · rw [String.toList_ofList, List.length_map, List.length_take]
      exact Nat.min_le_left ..

theorem IsComponent.ne_empty {s : String} (h : IsComponent s) : s ≠ "" := by
  rintro rfl
  obtain ⟨c, hc, -⟩ := h.2
  simp at hc

/-- A name that is safe to create, to mount on and to remove below the mount root. -/
structure IsDirName (name : String) : Prop where
  nonempty : name ≠ ""
  short : name.toList.length ≤ 64
  chars : ∀ c ∈ name.toList, isNameChar c = true
  notDots : ∃ c ∈ name.toList, c ≠ '.'
  notHere : name ≠ "."
  notAbove : name ≠ ".."
  noSeparator : '/' ∉ name.toList

theorem IsComponent.isDirName {name : String} (h : IsComponent name)
    (hshort : name.toList.length ≤ 64) : IsDirName name where
  nonempty := h.ne_empty
  short := hshort
  chars := h.1
  notDots := h.2
  notHere := by
    rintro rfl
    simpa using h.2
  notAbove := by
    rintro rfl
    simpa using h.2
  noSeparator := fun hmem => absurd (h.1 '/' hmem) (by decide)

/-- Whatever a device reports, its name is safe, and blanks around the serial do not count. -/
theorem deviceDirName_safe (serial : Option String) (vendorId productId : UInt16)
    (locationId : UInt64) :
    IsDirName (deviceDirName serial vendorId productId locationId) ∧
    ∀ before after : List Char, (∀ c ∈ before, isWhitespace c = true) →
      (∀ c ∈ after, isWhitespace c = true) →
      deviceDirName (serial.map fun s => padded before s after) vendorId productId locationId =
        deviceDirName serial vendorId productId locationId := by
  refine ⟨(deviceDirName_isComponent ..).isDirName (deviceDirName_length ..), ?_⟩
  intro before after hb ha
  have hserial : (serial.map fun s => padded before s after).map trim = serial.map trim := by
    rw [Option.map_map]
    exact congrArg (fun f => serial.map f) (funext (trim_padded hb ha))
  unfold deviceDirName
  rw [hserial]

theorem deviceDirName_safe_blanks :
    deviceDirName (some (padded [' '] "../a b" ['\n'])) 1 2 3 = deviceDirName (some "../a b") 1 2 3 :=
  (deviceDirName_safe (some "../a b") 1 2 3).2 [' '] ['\n']
    (fun c hc => by rw [List.mem_singleton.mp hc]; rfl)
    (fun c hc => by rw [List.mem_singleton.mp hc]; rfl)

/-- Stray blanks and slashes do not make another name, and dots alone make none. -/
example : deviceDirName (some " ../a b ") 1 2 3 = ".._a_b" ∧
    deviceDirName (some "..") 1 2 3 = "usb-0001-0002-3" := by decide

end MtpMount
