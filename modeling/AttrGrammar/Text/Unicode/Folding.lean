import AttrGrammar.Text.Unicode.Table

/-!
Characters that differ in case only.

Each character that is not folded to itself is folded to another one, and characters are the same
but for their case just if they are folded to the same character.
-/

namespace AttrGrammar.Text.Unicode

/-- Characters in order whose foldings are equally far away: the first one, how many they are, how
far they are from each other, and what the first one is folded to. -/
structure FoldRun where
  first : Nat
  count : Nat
  step : Nat
  folded : Nat

/-- Runs from numbers, four for each. -/
def foldRuns : List Nat → List FoldRun
  | first :: count :: step :: folded :: rest => ⟨first, count, step, folded⟩ :: foldRuns rest
  | _ => []

/-- The foldings of characters in the order of the characters. -/
def foldings : List FoldRun := foldRuns (numbersOf [
  "Y1Q1Z1bL11zSc0N1d0cO71dOe0O2e1fI32fJfP82fQgAN2gBhO11dVhP32hQhV11ZJi111oJi222i3i611oKi711i8i9",
  "21oMiB11iCiE11kTiF11oPiG11oRiH11iIiJ11p0iK11p3iM11p9iN11p8iO11iPiS11pFiT11pIiV11pLj032j1j611",
  "q0j711j8j911q3jC11jDjE11q8jF11jGjH21qAjJ22jKjN11qIjO11jPjS11jTk411k6k511k6k711k9k811k9kA11kC",
  "kB92kCkU92kVlH11lJlI22lJlM11iLlN11jVlOK2lPn011iUn292n3nQ11hZ5nR11nSnT11iQnU11hZ6o111o2o311i0",
  "o411q9o511qCo652o7w511zPxG22xHxM11xNxV11-Jy611zCy831zDyC11+CyE21+DyHH1zHz391+3+211+3+F11+N+G",
  "11zI+H11zO+L11+6+M11+0+OC2+P-G11zQ-H11+1-K11zO-L11zL-N11-O-P11-I-Q11-R-T31xRXW0G1XYGXWGX01XX",
  "GXZ0H2XZ1XaAR2XaBXc011XcFXc172Xc2XcGXG2XcHXfHX61Xh1ab0X61he0ac711hf7acD11hfDa-O61a-Gda011XXI",
  "da111XXKda211XXUda321XY1da511XY2da611XYAda711XZ3da811XfoBda911daAdaGXB1acGdbT31adTdm0YB2dm1d",
  "qR11dp1dqU11cVdr0XG2dr1du881du0duO61duGdv881dv0dvO81dvGdw861dw0dwP42dwHdx881dx0dy881dy0dyO81",
  "dyGdz881dz0dzO21dzGdzQ21dxGdzS11dzJdzU11zPd+841dxId+C11d+3d+J11yGd+O21d+Gd+Q21dxMd-311zGd-82",
  "1d-0d-A21dxQd-C11d-5d-O21dxOd-Q21dxSd-S11d-Jef611+9efA11ZBefB11d5efI11egEeh0G1ehGei311ei4fbM",
  "Q1fcGhW0XG1hXGhZ011hZ1hZ211pBhZ311dhThZ411pThZ732hZ8hZD11oHhZE11pHhZF11oGhZG11oIhZI11hZJhZL1",
  "1hZMhZU21nVha0XI2ha1hdB22hdChdI11hdJXfo0N2Xfo1Xfq0E2Xfq1Xfv272Xfv3XfvIV2XfvJXfxP22XfxQXfxT11",
  "dhPXfxU52XfxVXfyB11XfyCXfyD11p5XfyG22XfyHXfyMA2XfyNXfzA11p6XfzB11oSXfzC11p1XfzD11pCXfzE11pAX",
  "fzG11qUXfzH11q7XfzI11qTXfzJ11XgwJXfzK82XfzLXf+411XfyKXf+511q2Xf+611diEXf+722Xf+8Xf+B11p4Xf+C",
  "11Xf+DXf+G11Xf+HXf+M32Xf+NXf+S11iRXf-L11Xf-MXgxGYG1az0Xyu511Xyu6Xzv1Q1Xzw1X-W0X81X-X8X-bGX41",
  "X-cOX-hGB1X-iNX-hSF1X-j3X-iC71X-jJX-iK21X-jRYXa0XJ1YXc0YXgGM1YXhGYab0X01Yac0Yvo0X01Yvp0Zue0X",
  "21Zuf2"])

end AttrGrammar.Text.Unicode
