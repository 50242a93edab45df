import OpenAppFilter.Daemon.Config

/-!
# Nicknames of devices (`appfilter_ubus.c`, `appfilter_config.c`)

The package `user_info` has one section for each device with a nickname.
`handle_set_nickname` looks for the section of a MAC and sets, adds or deletes
it. The variable `index` is the place that was found, or −1; either way it goes
into the address of the section, where libuci counts a negative number from the
end.

Conventions.

* The list holds the sections of type `user_info` in order; there are fewer than
  2^31, so `int` counts them. Options the handler does not name are left out.
* `af_uci_set_value` copies key and value into 2048 bytes without a check; a
  call that would write behind them has no result.
* Adding, setting and deleting inside libuci succeeds. The reply, the forwarding
  to the agent and the reload that follows are left out.
-/

namespace OpenAppFilter.Daemon

open Base

/-- A section of type `user_info`. -/
structure UserInfo where
  mac : Option CStr := none
  nickname : Option CStr := none
  deriving DecidableEq

/-- The section `@user_info[index]` addresses, of `num` sections. -/
def uciSectionIndex (num : Nat) (index : Int) : Option Nat :=
  let place := if index < 0 then num + index else index
  if 0 ≤ place ∧ place < num then some place.toNat else none

/-- `user_info.@user_info[%d].` and the name of the option. -/
def userInfoKey (index : Int) (option : CStr) : CStr :=
  "user_info.@user_info[".toList ++ (decimal (Int32.ofInt index) ++ ("].".toList ++ option))

/-- `af_uci_set_array_value` of an option of `user_info`. -/
def afUciSetArrayValue (index : Int) (option : CStr) (set : Option CStr → UserInfo → UserInfo)
    (value : CStr) (sections : List UserInfo) : Option (List UserInfo) :=
  if fitsParam (userInfoKey index option) value then
    match uciSectionIndex sections.length index with
    | some i => some (sections.modify i (set (afUciSetValue value)))
    | none => some sections
  else none

/-- `af_uci_delete` of `user_info.@user_info[index]`. -/
def afUciDelete (index : Int) (sections : List UserInfo) : List UserInfo :=
  match uciSectionIndex sections.length index with
  | some i => sections.eraseIdx i
  | none => sections

/-- The loop of `handle_set_nickname`: `index` afterwards. `macStr` is the buffer
the option is read into; a section without the option leaves it as it was. -/
def findUserInfo (mac : CStr) : Nat → CStr → List UserInfo → Int
  | _, _, [] => -1
  | i, macStr, user :: users =>
      let macStr := (user.mac.getD macStr).take 127
      if macStr = mac then i else findUserInfo mac (i + 1) macStr users

/-- The members of the request. -/
structure NicknameRequest where
  mac : Option CStr
  nickname : Option CStr

/-- The steps of the handler that can fail. -/
structure NicknameIo where
  formatJson : Bool := true
  parseJson : Bool := true
  allocContext : Bool := true

/-- `handle_set_nickname`: the sections afterwards and the returned value. -/
def handleSetNickname (io : NicknameIo) (req : NicknameRequest) (sections : List UserInfo) :
    Option (List UserInfo × Int) :=
  if !io.formatJson then some (sections, -1)
  else if !io.parseJson then some (sections, -1)
  else
    match req.mac, req.nickname with
    | some mac, some nickname =>
        if !io.allocContext then some (sections, -1)
        else
          let index := findUserInfo mac 0 [] sections
          if 0 < nickname.length then
            -- a new section goes to the end, where −1 finds it
            let sections := if index = -1 then sections ++ [{}] else sections
            (afUciSetArrayValue index "mac".toList (fun v u => { u with mac := v }) mac sections).bind
              (fun sections =>
                (afUciSetArrayValue index "nickname".toList (fun v u => { u with nickname := v })
                  nickname sections).map (·, 0))
          else some (afUciDelete index sections, 0)
    | _, _ => some (sections, -1)

end OpenAppFilter.Daemon
