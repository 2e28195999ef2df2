import Proninx.Kern.Sha256

/-!
# Accounts (`auth.c`)

The account table and the checks on it. Strings are the bytes before
their terminator; an entry without a name is not used. `sha256` stands
for the digest that `password_hash` takes of the salt and the password;
no result depends on which function it is, and `bootTable` is made for
the one of `Kern.Sha256`.
-/

namespace Proninx.Auth

open ByteMem

def AUTH_PASSWORD_MAX : Nat := 64
def USER_NAME_MAX : Nat := 16

/-- `struct account`; `wheel` is the bit `AUTH_WHEEL` of `flags`. -/
structure Account where
  name : List UInt8
  salt : List UInt8
  hash : List UInt8
  uid : Nat
  gid : Nat
  wheel : Bool
  deriving DecidableEq, Repr

/-- `accounts` and `next_uid` -/
structure Table where
  accounts : List Account
  nextUid : Nat
  deriving DecidableEq, Repr

def emptyAccount : Account := ⟨[], [], [], 0, 0, false⟩

def bootTable : Table where
  accounts :=
    [⟨ascii "root", ascii "root-openproninx-v1",
        [0xab, 0xfe, 0x9e, 0x34, 0xa2, 0xa4, 0x0c, 0x7f, 0xc3, 0xb1, 0xf4, 0xbe, 0x7b, 0x58, 0xe7,
          0xfe, 0x3b, 0x11, 0xa9, 0xbe, 0x10, 0xf3, 0x91, 0x8e, 0x27, 0x1c, 0xec, 0x72, 0x16, 0x3d,
          0xa3, 0x68], 0, 0, true⟩,
      ⟨ascii "admin", ascii "admin-openproninx-v1",
        [0xce, 0xfb, 0xa2, 0x02, 0x33, 0x5b, 0x4a, 0xe9, 0x7a, 0x39, 0xd7, 0x99, 0xeb, 0x8c, 0xa6,
          0x86, 0xed, 0x8f, 0x33, 0xdc, 0x8c, 0x0d, 0xab, 0xdb, 0x70, 0xce, 0x24, 0x6a, 0x53, 0x89,
          0x10, 0x71], 1000, 10, true⟩,
      ⟨ascii "user", ascii "user-openproninx-v1",
        [0x9c, 0x56, 0xf5, 0xa5, 0xd7, 0x3f, 0xcb, 0x92, 0x51, 0xda, 0x70, 0x54, 0x5f, 0xa8, 0x04,
          0x58, 0x8f, 0xb9, 0xa2, 0x12, 0x34, 0x78, 0xab, 0x0d, 0x28, 0xff, 0xf3, 0xba, 0x88, 0x6a,
          0x03, 0xcd], 1001, 1001, false⟩] ++ List.replicate 13 emptyAccount
  nextUid := 1002

def nameChar (c : UInt8) : Bool :=
  (97 ≤ c && c ≤ 122) || (48 ≤ c && c ≤ 57) || c == 45 || c == 95

def validName (name : List UInt8) : Bool :=
  name.all nameChar && decide (name.length < USER_NAME_MAX) && !name.isEmpty

def validPassword (password : List UInt8) : Bool :=
  decide (8 ≤ password.length) && decide (password.length ≤ AUTH_PASSWORD_MAX)

/-- `find_name`, for a name that fits its field. -/
def Table.findName (t : Table) (name : List UInt8) : Option Account :=
  t.accounts.find? fun a => !a.name.isEmpty && a.name == name

def Table.findUid (t : Table) (uid : Nat) : Option Account :=
  t.accounts.find? fun a => !a.name.isEmpty && a.uid == uid

variable (sha256 : List UInt8 → List UInt8)

def passwordHash (salt password : List UInt8) : List UInt8 := sha256 (salt ++ password)

/-- `auth_login`: the ids of the account. -/
def Table.login (t : Table) (name password : List UInt8) : Option (Nat × Nat) :=
  if validName name then
    match t.findName name with
    | some a => if passwordHash sha256 a.salt password = a.hash then some (a.uid, a.gid) else none
    | none => none
  else none

def Table.doas (t : Table) (uid : Nat) (password : List UInt8) : Bool :=
  match t.findUid uid with
  | some a => a.wheel && passwordHash sha256 a.salt password == a.hash
  | none => false

def Table.isWheel (t : Table) (uid : Nat) : Bool :=
  match t.findUid uid with
  | some a => a.wheel
  | none => false

/-- `auth_set_password`; `stored` says whether `auth_store` succeeds. A
table that was not stored is put back. -/
def Table.setPassword (t : Table) (actor : Nat) (name password : List UInt8) (stored : Bool) :
    Table :=
  if validName name && validPassword password then
    match t.accounts.findIdx? fun a => !a.name.isEmpty && a.name == name with
    | none => t
    | some i =>
      match t.accounts[i]? with
      | none => t
      | some a =>
        if (actor ≠ 0 ∧ a.uid ≠ actor) ∨ stored = false then t
        else { t with
          accounts := t.accounts.set i { a with hash := passwordHash sha256 a.salt password } }
  else t

/-- The salt of a new account: a text and four digits of the uid. -/
def newSalt (uid : Nat) : List UInt8 :=
  ascii "openproninx-user" ++
    [1000, 100, 10, 1].map fun d => 48 + UInt8.ofNat (uid / d % 10)

def Table.addUser (t : Table) (name password : List UInt8) (wheel stored : Bool) : Table :=
  if validName name && validPassword password && (t.findName name).isNone && stored then
    match t.accounts.findIdx? fun a => a.name.isEmpty with
    | none => t
    | some i =>
      let uid := t.nextUid
      let salt := newSalt uid
      { accounts := t.accounts.set i
          ⟨name, salt, passwordHash sha256 salt password, uid, uid, wheel⟩
        nextUid := (uid + 1) % 2 ^ 32 }
  else t

lemma bootTable_admin :
    bootTable.login Sha256.digest (ascii "admin") (ascii "openproninx") = some (1000, 10) := by
  decide +kernel

lemma bootTable_user :
    bootTable.login Sha256.digest (ascii "user") (ascii "openproninx-user") =
      some (1001, 1001) := by
  decide +kernel

lemma bootTable_doas : bootTable.doas Sha256.digest 1000 (ascii "openproninx") := by
  decide +kernel

end Proninx.Auth
