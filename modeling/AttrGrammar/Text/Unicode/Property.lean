import AttrGrammar.Text.Unicode.Table

/-! The properties that a character has or has not. -/

namespace AttrGrammar.Text.Unicode

def asciiHexDigit : Bounds := boundsOf [
  "XGA76Q6"]

def alphabetic : Bounds := boundsOf [
  "Y1Q6QXF1A1415N1V1kA4CE57111YM1TI1224116113111K1YJ1aB8b61X6216X9X7E111212118R44TB5XO17EZ61848",
  "43A321GXGDZ5OX192415O2JJP7B5O16818XAAC376YC1G134FDJ18222M17113438222211814215C2A14316422M171",
  "21212454222417411H6B319131M17121539131231F4L44318222M171215382222924215D1G216331432111232333",
  "C4533133161X8D131N1G38131382132124S418131N1A15381313826214D3CD131X9281313115475M6131I3O19112",
  "7861118I2DXQ5761XJ211151O111J13251161E4X01XV81X44J4G1X4Y3XN1125GY0A42X611512XB1gD142711142X9",
  "142X1142711142F1XP142Y3X5GGYM263pC2H1Q5YB3B7KBLCKCD1312CXK2JE141Y3YP7XB5Y6AV1C49NU25BXC4QXMS",
  "4XV2KXI1N2B3XHXK1F18XJXA24AXC1BEXNM3AX42B5XB23X941612315c0JX2BeM262X626281111111V2XL17113317",
  "34264D5317ZK1D1GDZ51412A1135611111141B245541HX9vDXKXuMd56432CX611512XO71GN97171717171717171X",
  "0XF1kL3P975254YM631YQ145XB1YUHX0XGGm0ck0Y0rqDY3XE2eD3GA2KXF583ZHX792Z72Y3221118LK1X1OXKCY411",
  "XC63113AX15X3DT3XJ1CF1GGA51XN9EIN3Y51111O32G24B6262697171XB1E6ZRLgz4CN4XHce4hE2ZAX67C55C1D15",
  "1112121ZCX1hBIY02XMX8CZK51a7X4Q6QBYP36262623X3C1Q1J121F2EX2ZRY5XLeBT3XHXFX0DU5XB5U2X44815XAa",
  "UIX44X44X88XKCB1F17121B1F17123XKCfN9MA8O61XA19Y56211XC12312NAN9VY1J12AMAQY6XO62Y041258131TXA",
  "T3TX381SRXMAMAJDIZEY9XNXJDXJDX8X2S315NdQXA1232G3XN13TA18MXAIXELRN9Y6XB5AXP91DPNXJH48X3319Y01",
  "492A111X3I1X22164XU711141F1A7XPN418222M171215382222316157SA11211X61A112114123111XCY21314K3UY",
  "22211bOXM27P6X2XV1131XRXM21Y7R2EL7bPXPZ7Y0V82128121U122224YT82XE261112RXJ2AHY851IY9c7X1V91XD",
  "1711XHU2M1EY97121XC3112131122O6121X5121411g7N9H1X933ZF1YFyQZ6ZFHc4YoCZ1FXXGH6PZyR5o7crPXFXsH",
  "nP7VHYFHUIXGG4VL5JjGXDcJY0a0YB4XP7HY0211C2Eb-O8XcMX9Aet7417121f3F1T321E48iCYe4ZB5D397A41bx1Y",
  "L1Y7122122241C11171Y11428171S141511371gK2P1P1V1P1V1P1V1P1V1P18XvKV66cL71H2712155XUX11ZGXDA7G",
  "1g1UIXCl4Sd4U21lF714121F1c5XRY43131XbK41R1211211A1411116141111113121121111111111211241714141",
  "11A1H53151HpKQ6Q6QZpMXft0X0aXQ6cU2bq2EdfHFpEYj2mUXl2awB5aZ0"]

def bidiControl : Bounds := boundsOf [
  "XmS1clH2Q5XN4"]

def caseIgnorable : Bounds := boundsOf [
  "X7161B1X3111Y7141114122lNc042419211dR7cF151XHXD11121211XC1B6AB11X31ALG1Z581A14X1111URYRBXQB4",
  "121OOXB3XC17259X9XQXN111484137A2D1F1XQ14481K2Q122XP142422331U231B2XP1451241K2M611XQ121148172",
  "B2U1XT1C1XI131XN113531472B2T1XQ1216152K2S2XP24481K2T1Y817311YQ127B9Z21299117Y92R11111XNE1512",
  "5B1X491Z64161222P243G4D12261F1YU1p03zI3T2U2U2Y0217812B3151XD5XJ1Y12X21ZM3429163cR221XQ117111",
  "1286A21X718VXH4XG1151151X89C2X042213XO1123113XQ822Y06YI31D17416132XIXVD1X2Z5jT113B3D3D3D2C58",
  "2A12125XH51A11D1GDXJX1YyB2ZH3ZT1F1Z0X0XF1kL1X443551YT6YT3xuM1Xd26eE1Z241A11S4YG2EX2YE1N3Z733",
  "2813141P251aN2QID1X68PBXE3XG12422H1L2Y262222C181X31B1XJ113225211R1E25211Z4593ZP12141nvG1aJHn",
  "TG31CGX2121b917161B1X3111XF1XD2Y31L3m11d21aL5XW561XA19o631254X8341b52nT4X61Q511fR2YF4Y6BXH4Z",
  "R1XMFX9122A3XH4222141A1XI3X4518XU1C2XK9A421YV321126121aT138L2XP231X5735Y66D11111E2YL82311N1Y",
  "K6114212dE46212R2YL82112ZA1112611Z51112415e3912e021141aG42241X0AX8624819623XED12iM71611YIM27",
  "1212ZQ631121711Y823111gR2B2XK55111N1bcLH6Fhc8C33Yk05XR794lS3X82l21XVHY0212mWB41712ZaU214aoSX",
  "E2Nn039G27U4aK3XzRXN4XI81E1M51FXgG71H2712155XUX11b0EhG1XT4lR5dU2t07ZD8YrF5uZW11UZ0a0dG"]

def cased : Bounds := boundsOf [
  "Y1Q6QXF1A1415N1V1c3144cG2X372U5Z01XA42224116113111K1YJ1aB8b61X69X9YuNX611512XB14r0YM26Ya2B5X",
  "B23Y0c0Y0eM262X626281111111V2XL1711331734264D5317ZK1D1GDZ51412A1135611111141641245541HX032vH",
  "XKXuMd56432CX61151+eIXEIUa4Z6341XU221118L513vLXB1E6YGnw07C5XW9Q6QXb5YGZ0X44X4ZKB1F17121B1F17",
  "12k31231XA19Xc5XJDXJYTMAMYuQY0rh0Y0vi0YL1Y7122122241C11171Y11428171S141511371gK2P1P1V1P1V1P1",
  "V1P1V1P18XvKA1K66e5XUYaIY4X-CQ6Q6Q"]

def changesWhenCasefolded : Bounds := boundsOf [
  "Y1QYQ1AN18X011111111111111111111111111111111111111111111111111111112111111111111111121111111",
  "11111111111111111111111111111111111111211111112111213241213321211111211211213111231721212111",
  "11111111111112111111111111111112211131111111111111111111111111111111111111111111111111111111",
  "1117212211411111111dM1XA1113181611311121H19M1C332111111111111111111111111122211122XJXG111111",
  "11111111111111111111111111191111111111111111111111111111111111111111111111111111112111111111",
  "11121111111111111111111111111111111111111111111111111111111111111111111111111111111111111111",
  "11111112X6XG1YuOX61151vA6Ya2A6XB23g011111111111111111111111111111111111111111111111111111111",
  "11111111111111111111111111111111111111111111111111111111111111111111111111111111111111111111",
  "15221111111111111111111111111111111111111111111111111111111111111111111111111111111111111111",
  "1111111119886A88886B111111188GXG23265326B4C55326f913261XDGJ1vIQXvGXGXG1132111111411218311111",
  "11111111111111111111111111111111111111111111111111111111111111111111111111111111111111111111",
  "1811141+gD111111111111111111111111111111111111111111111J111111111111111111111111111a71111111",
  "11111131111111111111111111111111111111111111111111111111111111111111A11112111111114111211131",
  "1111111111111111111515111111111111111411123151111111O1xQYGnw07C5XW9QXc5X8a8X4aSB1F1712XtAXJa",
  "TMYvQX0ri0X0+r0X2"]

def changesWhenCasemapped : Bounds := boundsOf [
  "Y1Q6QXQ1AN1V1Y01YK1S2E22114YT1I6R1211123214152112217121123651A2b61XA42233116113111K1XF3X1151",
  "a58b61X6AX7YuOX611512XB23r0YM26Ya2B5XB23bP131G1ZHaS211ZM262X626281111111V2XL1711331734264D53",
  "17f913261R1HX032vHXKXuMZH12127Z67432CX61151+eIXEISa6E2XU9F33251P1U221118O2wS1SYGnw07C5XW9Q6Q",
  "Xb5YGZ0X44X4ZKB1F17121B1F1712Xs3XJDXJYTMAMYuQY0rh0Y0+q0Y4"]

def changesWhenLowercased : Bounds := boundsOf [
  "Y1QZ5N17X11111111111111111111111111111111111111111111111111111111211111111111111121111111111",
  "11111111111111111111111111111111111121111321112132412133212111112112112131112317212121111111",
  "11111111121111111111111111122111311111111111111111111111111111111111111111111111111111111117",
  "212211411111111f11113181611311121H19X318111111111111111111111115121122XJXG111111111111111111",
  "11111111111111191111111111111111111111111111111111111111111111111111112111111111111211111111",
  "1111111111111111111111111111111111111111111111111111111111111111111111111111111111111112X6Yw",
  "9X61151sIYMYaJ16XB23g01111111111111111111111111111111111111111111111111111111111111111111111",
  "11111111111111111111111111111111111111111111111111111111111111111111111111111119111111111111",
  "11111111111111111111111111111111111111111111111111111111111111111111111111111111111119886A88",
  "886B111111188O8888885B5B4C5B5f913261XDGJ1vIQXvGXGXG11321111114112183111111111111111111111111",
  "11111111111111111111111111111111111111111111111111111111111111111111111111811141+gD111111111",
  "111111111111111111111111111111111111J111111111111111111111111111a711111111111113111111111111",
  "1111111111111111111111111111111111111111111111111A111121111111141112111311111111111111111111",
  "515111111111111111411123151111111O1pvBQXc5X8a8X4aSB1F1712XtAXJaTMYvQX0ri0X0+r0X2"]

def changesWhenTitlecased : Bounds := boundsOf [
  "Z1QXQ1X9O18111111111111111111111111111111111111111111111111111111112111111111111112111111111",
  "11111111111111111111111111111111111112111132111213151213321211111214121311121311141121211111",
  "11111111111121111111111111111131111311111111111111111111111111111111111111131111111111111111",
  "181221141111111161211123214152112217121123651A2b61XB1113133I1RX31233111111111111111111111115",
  "112121XKXG1111111111111111111111111111111111911111111111111111111111111111111111111111111111",
  "11111121111111111112111111111111111111111111111111111111111111111111111111111111111111111111",
  "111111111111111111111111XHX7ZpG6Ya2911dE131G1ZI111111111111111111111111111111111111111111111",
  "11111111111111111111111111111111111111111111111111111111111111111111111111111111111111111111",
  "11111111111751111111111111111111111111111111111111111111111111111111111111111111111111111111",
  "111111111111111986A88886A8888E2888888512613312842288A312gM1X1G41wBQXw6XG11321111116121A11111",
  "11111111111111111111111111111111111111111111111111111111111111111111111111111111111111111111",
  "11811141CX61151+eJ111111111111111111111111111111111111111111111J111111111111111111111111111a",
  "7111111111111131111111111111111111111111111111111111111111111111111111111111A111211111111141",
  "411221111111111111111111B111111111111111411121311111111111Q1wS1SYGnw07C5XX9QXcDX8a8X4aRB1F17",
  "12Xu3XJZTMYvQX0ri0X0+r2X2"]

def changesWhenUppercased : Bounds := boundsOf [
  "Z1QXQ1X9O18111111111111111111111111111111111111111111111111111111112111111111111112111111111",
  "11111111111111111111111111111111111112111132111213151213321211111214121311121311152121211111",
  "11111111112111111111111111112121131111111111111111111111111111111111111113111111111111111118",
  "1221141111111161211123214152112217121123651A2b61XB1113133I1RX3123311111111111111111111111511",
  "2121XKXG111111111111111111111111111111111191111111111111111111111111111111111111111111111111",
  "11112111111111111211111111111111111111111111111111111111111111111111111111111111111111111111",
  "1111111111111111111111XHX7Yw8XB23tO6Ya2911dE131G1ZI11111111111111111111111111111111111111111",
  "11111111111111111111111111111111111111111111111111111111111111111111111111111111111111111111",
  "11111111111111175111111111111111111111111111111111111111111111111111111111111111111111111111",
  "1111111111111111111986A88886A8888E2XL124111331241342288A31241gH1X1G41wBQXw6XG11321111116121A",
  "11111111111111111111111111111111111111111111111111111111111111111111111111111111111111111111",
  "1111111811141CX61151+eJ111111111111111111111111111111111111111111111J11111111111111111111111",
  "1111a7111111111111131111111111111111111111111111111111111111111111111111111111111A1112111111",
  "11141411221111111111111111111B111111111111111411121311111111111Q1wS1SYGnw07C5XX9QXcDX8a8X4aR",
  "B1F1712Xu3XJZTMYvQX0ri0X0+r2X2"]

def dash : Bounds := boundsOf [
  "XD1XgS1XJ1Zo11XW51YW96XT1X71F1i61ZW4121V241S1jU1J1ZF1XniG2X51A1b91Zp01fU1"]

def defaultIgnorableCodePoint : Bounds := boundsOf [
  "bD1r11sC1Yw22XoJ2YL5X-R5Q5XHGadK1XnaRGdF1b01YF9Xlb74bcF8uhq5aW0"]

def deprecated : Bounds := boundsOf [
  "g91Xf91Ye3111YX92Yc56rP2xrcM1"]

def diacritic : Bounds := boundsOf [
  "YU111Y71614122lNaV1856H24192dT5cH1XNXD11121211a3842a624233Y3RYRBXQBX22ZU8X9AGSXT1G134S1YA1G1",
  "ZE1G1ZE1G1XF3XS1G171ZN1ZE1G1ZE1G1ZD2G1ZS1ZF1C611ZB1D5YB2R1111142Y2312XU1ZG112X8245P711A2s13z",
  "K2U1aKB91gR3f41K821XGF2BZ81F1X69XM2XQ1B2Y22Y06YIP416123XIXVXGX45CX5BjT113B3D3D3D2ZdG3fT1lQ6Z",
  "94YV1zhI1C211S2YI2EX2Z63ZD2C1X51aN1RIXP4X41YV1C1X41aL3Y14XJ1Z4593a02nvG1u1GeE111XF1XD2Y31tS1",
  "XaV61XA19pT341b52nR6X61Q5iF3Y6BXH4c01X91Y82ZO2XU1YC193Z82bI2YG2G1O735YP312D2YV131ZR2dR2ZU1ZM",
  "2ZJ1eD2e2241aS1YJ1I1YH1j51e2112YH1j92N1bdCFhcP1Yk05XR7nK2n2HYG2l-U41712du1XE2Nn03368827U4Zq2",
  "XUc27hN1XT4tU2t07ZD313"]

def emoji : Bounds := boundsOf [
  "X31615AZF141dyD1C1cO1M1YQ6F2hF2C1b61PB43c71d72A191XQ415912122214121122131328351115CB2211211I",
  "122I6111232512242B25221521112K256142141212611211111613161A2F12141114311B2XG391E1E1hK2kF3J2XJ",
  "141XcQ1C1oP111ZjhA1cA1b02C2E12AYBQ12N1K129L2bEX22ZG22132YJ231e71XVB61O7228C1242142D221829153",
  "C38321114161316YMXGY658234A3112312Ad3C41eRXF1A1bPZGD3A5XO7F2B69"]

def emojiComponent : Bounds := boundsOf [
  "X31615Ad+J1cL1XrfB1Xy+MQlR5XjG4uXpCZ0"]

def emojiModifier : Bounds := boundsOf [
  "Zw-R5"]

def emojiModifierBase : Bounds := boundsOf [
  "fmT1cR1G4ZnZN1XS32123ZL22BLJ3143137111O1c9241L142bE335YJ1G391B1nV12188619A23XO1XT21211H31Dd5",
  "3XA9"]

def emojiPresentation : Bounds := boundsOf [
  "euQ2cD43121m92L2XICXB1J1D182H2528151L1721141217142S1X31114311XT3O1E1wR2XJ141ZlbE1cA1bU12AYBQ",
  "11O1K12513L2bEX1C91Y61MCXB45CH313Y7111bR2XVD41OI1Q2D1YMYLXGY661332344B279d3C41eRXF1A1bPZGD3A",
  "5XO7F2B69"]

def extendedPictographic : Bounds := boundsOf [
  "b9141dyD1C1cO1M1YQ6F2hF2C1b61PB43c71d72A191XQ415912122214121122131328351115CB2211211I122I611",
  "1232512242B25221521112K256142141212611211111613161A2F12141114311B2XG391E1E1hK2kF3J2XJ141XcQ1",
  "C1oP111ZjhA1X74Z4CF2F1E2X5AZG2C2E12AJXORFA1K129149N6bS2ZG22132YJ23145dU1XVB61O7228C1242142D2",
  "21829153C38321114161316YMXGY658231D31162DcQX6C4XO8A6X88U2C42E9X7CXF1A1bPYO8ES131XP141S141Ge0",
  "-U"]

def extender : Bounds := boundsOf [
  "bN1mO2xE1jP1pM1a91YP1tG1ZV1Yg31XO1p31iE1Y41ay91XB5Z72YT3xuM1XlM1+21M1a91ZC1L2pZR1YWG2XkB1R14",
  "1Xc71f51ZK2lI3XcF1qb92XaS211ygO2XbH1wK3"]

def graphemeBase : Bounds := boundsOf [
  "X0YVX1D1oIZG82647111K1d07b61X62XI23XE11121219R46HAB11XELG1Z58162214X0211UTYPB1EXB973O4191317",
  "F1P511B5VHXAXPXN111484137A2T1218222M1711343112622211D2134O5116422M1712121243O4117A2311C11913",
  "1M17121534811231F24C718218222M17121531216222F2134IB116331432111232333C5112331331LL6318131N1G",
  "3134J321224A7A1B131N1A15322112O2124A13EB131X92112531312431A4Q221I3O19112792677A23CXG12B88DX5",
  "211151O111A129125119A24X0O2R11111E1X4I15125XH8161DX5XD4161222P243G4D12261F1X811512hP14271114",
  "2X9142X1142711142F1XP142Y35T3Q6YM262qT3YP7IDJ329IED13FXK217812B93A6A6B5A6YP752X2115Y6AV44234",
  "216713XA25BXC4Q6B3XP223XO11911286DA6A6EYMXGA4381T9C2X0426XO112311DXG825F3XU5XB2BB1D174161321",
  "5c0Y0eM262X626281111111V2XL1F1E261J23191B5O7XHG22R1D3X1XVaC4qQMBLXuK2X01gO325XD11512XO72FN97",
  "17171717171717X1YUX2Q1YPCcMQXQ6G1YM4Z55XB1YU1YM9XG1ypD3XN9gSKXF41AX02YG268cE221118LG13141P25",
  "4A6XO8Y4ACOD1X68PB1CU6XG1242221D1B471P1X96222B318112A2X01XJ1132252111OH28B6262697171XS4ZL121",
  "43A6gz4CN4XHce4hE2ZAX67C5511O151112121ZTGjT2XM71X0GGAMX31J14451a74aT2V362626233717D22C1Q1J12",
  "1F2EX2ZR534XD3YO1D31XFXDa3T3XHGR4X49U5X6AU1X54EXAaU2A6X44X44X88XKBC1F17121B1F17123XKCfN9MA8O",
  "61XA19Y56211XC12312N1Y889XGJ125X13R51Y0XO4K2XFF4131TA9797Y0X0X56C9XM3T2R5Q74C7YGY9XNXJDXJ7XA",
  "CA6X68O82cGV1XA3122G3XRX88MB9MI44X6SKN911XMF74U1221CXH422214EP7A9X4519I8X313BXK9118421G1KBI1",
  "S324612XV711141F1B6XF13DA8218222M171215311114222231C7SA11211X61112F112311312X7XO82311L1113UX",
  "G1261121121248Ab6XF1264212RX4XJ821124BA6DJXB1112826A6KSR3112419NbPXF9121Z4YJC82128121O151264",
  "139AY682XA8414R1AX8624891623XED129DY97AbMX2EA691X6E116AT3X0P17121YB7121X6L19A66121X54211117A",
  "fMJ249F1X4823NYM1FXIDyRZ6ZF15Bc4YoCZ3DXXGH6PZyR5o7crPUC33AXs6nP7V1A4YH1A6U71AXG7FAA171L5JjGX",
  "Qc6YRZ5YB5XOBDY04Sb-O8XcMX9Aet7417121f3F1T321E48iCYe4ZB5D397A2121Zx0dQ6jKaSZKXSdMAX72XS53M27",
  "U4XTLY231ZQKCKCYN9Pa7YL1Y7122122241C11171Y11428171S141511371gK2f42nIXN4XI81E17XZKV66e5XUaIXD",
  "A72A42g0UIXC4A51kGS4AcMU2B41l0714121F1c529XGY4714A42uHY4YCXTc241R1211211A1411116141111113121",
  "12111111111121124171414111A1H53151HXK2eEXC4Z4CF2F1F1X5AbEXOTDXC4972E6aQ+O4H3D3ZN4YV6C41FC4XO",
  "8A6X88U2C42XUgKCE2D3A5XO7F2B697aJ1Z6XW6Xft0X0aXQ6cU2bq2EdfHFpEYj2mUXl2awB5aZ0"]

def graphemeExtend : Bounds := boundsOf [
  "u0ZGeJ7e7XD11121211Y8BXGLG1Z57262214X31URYRBXQ991O4191315XB3XR9XAO1X0XN111484137A2T1XQ111248",
  "191A2Q122XP142422331U231B2XP1451241K2M611XQ112148173A2U1XR111C191X8131XN113531472B2T1XQ12211",
  "331472B2S2XP211248191A2T1Y8141231181YH127C8Z2129B7Y92R11111XNE15125B1X491Z64161222P243G4D122",
  "61F1rV3zI4S3T2U2Y0217812B91XD311ZL2X21ZM3429163cR221XQ1171111286A21XGVXH4XGA43X69C2X0426XO11",
  "23115XO822aO31D17416132c6Y0mC1c3X1Y-U3aD1Z0X0nA6Z92zkK41AX02YG2eG13141P251aN2QID1X68PB11XC3X",
  "G1242221X41Y362222C181XF1XJ113225211XA281dE12141nvG1t1GGGhE2oT1d21aL5Xq631254X8341b52nT4Y15f",
  "T2YF4Y6BXH4ZR1XMFX9122A3XH42271XT3X4518XU1C2XK9118421YV3246121aT138L2XP21111C191E735Y3126112",
  "1134311E2YL82311N1YH12611211212dB1246212R2YL82112ZA11128Z51112415e3912dL1A441aG42241X0AX8624",
  "819623XED12iM71611YIM271212ZQ631121711Y823111gR2B2XK553N1bd516Fhc8C33Yk05XR7XWO1XV4YH1B2pbB2",
  "ap1XE2NmU5368827U4aK3XzRXN4XI81E1M51FXgG71H271215Z41b07hN1XT4lS4dU2t07ZD7ubsLZ0a0dG"]

def graphemeLink : Bounds := boundsOf [
  "YgD1ZV1ZV1ZV1ZV1ZV1ZV1ZV1ZD2G1ZS1ZF1ZV1c91bK2XsP2U1aT1qD1d31Z52Y62aiB1+q61X51aN1aE1ZC1fL1dM1",
  "roH1Xm61X91E1XP1ZP2aB1ZK1bK1Z21a03ZH1ZV1dS1ZV1ZM1ZK1eD1e32b11YJ1I1YH1j51e42YH1j92mlC1"]

def hexDigit : Bounds := boundsOf [
  "XGA76Q6Xzr9A76Q6"]

def hyphen : Bounds := boundsOf [
  "XD1ZV1XcS1apR1YW92Zm51t31Xnh71b91YN1"]

def idsBinaryOperator : Bounds := boundsOf [
  "h-G22AlH1"]

def idsTrinaryOperator : Bounds := boundsOf [
  "h-I2"]

def idsUnaryOperator : Bounds := boundsOf [
  "h-U2"]

def idCompatMathContinue : Bounds := boundsOf [
  "bI251dzM13B1FhJ141M1Zhb21P1V1P1V1P1V1P1V1P1"]

def idCompatMathStart : Bounds := boundsOf [
  "em2141M1Zhb21P1V1P1V1P1V1P1V1P1"]

def idContinue : Bounds := boundsOf [
  "XGA7Q411QXF1A111215N1V1kA4CE57111HZL12241165111K1YJ1aB152b61X6216X98XD111212118R44TB5YA4Z618",
  "2A1J21GXR2Z5EXM41212XEIS4B5O168YB1a12A1J18222M1711342922248142152CA1112316422M17121212211542",
  "233174117GB319131M1712152A131321F42A971318222M1712152922237342152A11G216331432111232333C4533",
  "142161EAGD131N1G291314721321242AG418131N1A152913147262142A13CD131XJ131554752AA6131I3O1911273",
  "14611186A22DXQ5F1AX7211151O111N2511171A24X01N26AB111114A1X44K1I1X491XPYA6YE2X611512XB1gD1427",
  "11142X9142X1142711142F1XP142Y32399EGGYM263pC2H1Q5YB3B7M9MBKCD1312CYK31422AX131B6YP7XB5Y6AV1C",
  "4CAX825BXC4Q6BX5S4XV1T2B6AD18E1GXHYD3AH9CZKCXO8A3XH2B5XB23G31X75mM262X626281111111V2XL171133",
  "1734264D5317F2XH2J1S1D1GDXJD413CH1412A11266111111G245541HX9YpNd569CX611512XO71FO971717171717",
  "17171X0m53PF15254YM271YV5XB1YUHX0XGGm0ck0Y0rqDY3XE2eD3SKXG4A1ZJX592Z72Y3221118LXM41JXKCY6AA6",
  "O311XH2X4CT3Y1EB6V1XN9E2A6N3Y9O32G25A6262697171XB1E6ZR122A6gz4CN4XHce4hE2ZAX67C55C1D15111212",
  "1ZCX1hBIY02XMX8C4GGG32O3X051a7JA7Q411QAYQ36262623X3C1Q1J121F2EX2ZRY5XLa81a2T3XHF1VX0DU5XB5U2",
  "X44815XAaU2A6X44X44X88XKCB1F17121B1F17123XKCfN9MA8O61XA19Y56211XC12312NAN9VY1J12AMAQY6XO62Y0",
  "41258131T2341X0T3TX381UPXMAMAJDIZEY9XNXJDXJDX88A6X6351NdQXA1232G3XNX1A18X1VMXALRN9Y7VG9XS71D",
  "P7A6XL1A448X4219Y5441D11X3I1X564XU711141F1A7XR5A6418222M1712151A22232161572735BA11211X61A112",
  "11418D2TYB5A44UY6118Ab6XM29N6X2Y131BAX6XP7A6KSR2F4A67bPXRZ5YAL82128121U1229CAY682XE2812RXV81",
  "8YA31IY9c7X1FA691XD19FAOU2M1EY97121XC3112198A66121X512167AfMN9H1X935DBYL1YFyQZ6ZFHc4YoCZ1FXX",
  "GGMAZyR5o7crPXQXs6nP7V1A6YF1A6U25BXN94CA9L5JjGXD3Ac6Y0a0YB4XP7HY0212B2Eb-O8XcMX9Aet7417121f3",
  "F1T321E48iCYe4ZB5D397A32aYHAm6XE2NmU5368827U4aK3jRYL1Y7122122241C11171Y11428171S141511371gK2",
  "P1P1V1P1V1P1V1P1V1P182XIm0XN4XI81E1M51FXYGV66cL71H2712155XUX11ZGXD3E2A41g1VHXQkMXAcMXBl57141",
  "21F1c5B7X9YC4AXb641R1211211A141111614111111312112111111111121124171414111A1H53151HZfKAXW6Xft",
  "0X0aXQ6cU2bq2EdfHFpEYj2mUXl2awB5aZ0rtgGdG"]

def idStart : Bounds := boundsOf [
  "Y1Q6QXF1A1415N1V1kA4CE57111a151224116113111K1YJ1aB8b61X6216X9Y7R44XDXBX321Z311F272A321G11UTY",
  "PB1OX192415M419131NP7B5O16HXAXQXM31I17AFG48222M17113431G1D213E2A186422M17121212V411J3G9131M1",
  "7121531I1F2N1B8222M17121531U213F1H116331432111232333CM1XK8131N1G31Q32122U148131N1A1531V212F2",
  "H9131X921G15383O65I3O191127XQXG12C7XQ211151O111A12912511L4X01XV81X4R5ZJXBK1G6443132734DC1HX6",
  "11512XB1gD142711142X9142X1142711142F1XP142Y3X5GGYM263pC2H1Q5YB3B7IDJEIED13FXKX3141Y3YP7X9115",
  "Y6AVXHU25BXC4QXMN9XLYI1YTXFH8XMUD2AXCQX4X93AX42B5XB23X941612315c0Y0eM262X626281111111V2XL171",
  "1331734264D5317ZK1D1GDZ51412A11266111111G245541HX9YpNd56432CX611512XO71GN9717171717171717n63",
  "P975254YM451YQ145XB1YUHX0XGGm0ck0Y0rqDY3XE2eD3GA2KXFGV2YGX792Z72Y3221118LG13141NTXKEXIXU6311",
  "2BSANPT7XFS1G51AA51X9N318KN313XI1132252111O32B73C6262697171XB1E6ZJTgz4CN4XHce4hE2ZAX67C5511A",
  "1D151112121ZCX1hBIY02XMX8CZK51a7X4Q6QBYP36262623X3C1Q1J121F2EX2ZRY5XLeBT3XHXFX0DU5X6AU2X4481",
  "5XAaUIX44X44X88XKCB1F17121B1F17123XKCfN9MA8O61XA19Y56211XC12312NAN9VY1J12AMAQY6XO62Y01F4131T",
  "XAT3TX381SRXMAMAJDIZEY9XNXJDXJDX4X6S9NdQXA62G3XRTA18MXAIXELRNCXLXP221DXDX0PQX4T1218X331CXGE4",
  "L111X3I1PJ2XV711141F1A7XFX68222M17121531I1C5UA11211X611P111XCXLI4K3UXGK211bOXFX94X4XGK1XRXBD",
  "1Y7RX57bPXCZKY0V82128121OF111YU82X7G111S1AX871L1BXEJ1IY9c7X1V91X5H1XHUZG7121X6L1P6121X0E1g7J",
  "F11D1X2ZS1YFyQZ6ZFHc4YoCZ1FXXGH6PZyR5o7crPUXt2nP7VHYFHUIXGG4VL5JjGXDcJY0a0YB51Y2DY0211Sb-O8X",
  "cMX9Aet7417121f3F1T321E48iCYe4ZB5D397Abx6YL1Y7122122241C11171Y11428171S141511371gK2P1P1V1P1V",
  "1P1V1P1V1P18XvKV66e5XUaIXDA7G1g1UIXCl4Sd4U21lF714121F1c5XRY471XbK41R1211211A1411116141111113",
  "12112111111111121124171414111A1H53151Hag4Xft0X0aXQ6cU2bq2EdfHFpEYj2mUXl2awB5aZ0"]

def ideographic : Bounds := boundsOf [
  "iW62P9E3+5ck0Y0qm0qe0hE2ZAzeA1Rb-O8XcMX9AfZ7iCpe4Xft0X0aXQ6cU2bq2EdfHFpEYj2mUXl2awB5aZ0"]

def joinControl : Bounds := boundsOf [
  "eWC2"]

def logicalOrderException : Bounds := boundsOf [
  "Zo05ZR5YtG321XadQ22112"]

def lowercase : Bounds := boundsOf [
  "Z1QXF1A141X4O1811111111111111111111111111111111111111111111111111111112111111111111111211111",
  "11111111111111111111111111111111111111111211113211121324121332121111121121121311122236121211",
  "11111111111111211111111111111111221113111111111111111111111111111111111111111111111111111111",
  "11117212211411111111Y52X372U5Z01XB1113124I1RX31233111111111111111111111115112122XJXG11111111",
  "11111111111111111111111111911111111111111111111111111111111111111111111111111111211111111111",
  "12111111111111111111111111111111111111111111111111111111111111111111111111111111111111111111",
  "111111XGX9Yw7XB14tO6Ya2911ZLc0Y1111111111111111111111111111111111111111111111111111111111111",
  "11111111111111111111111111111111111111111111111111111111111111111111111111111111111111119111",
  "11111111111111111111111111111111111111111111111111111111111111111111111111111111111111111111",
  "11986A88886A8888E2888888512613312842288A312ZP1D1GDZD13231R14141228441X1G41wBQXw6XG1132111111",
  "41121831111111111111111111111111111111111111111111111111111111111111111111111111111111111111",
  "11111111111112711141CX61151+eJ111111111111111111111111111111111111111111111J1111111111111111",
  "11111111113a511111111111131111111111111111111111111111111111111111111111111111111111111A1111",
  "21111111114111211311111111111111111111515111111111111111411121311111111111M31113vLXB1E6YGnw0",
  "7C5XX9QXcDX8a8X4aRB1F1712k31231XA19Xe5XJZTMYvQX0ri0X0viQQQ71IQQQ411171BQQQQQQQQQQQQQQQQQSSP1",
  "6QP16QP16QP16QP1611XvKA1K66e5XUYbKX2"]

def math : Bounds := boundsOf [
  "XB1G3V1T111XD141X51V1sO321Q223mF3cmD1R3B131D1E4L5B5Y1D413245I1412A112661322213163E11Y4O16124",
  "24X01162EeC84K2YQ1UR11O1B7jT2CA46422235E11126B852XP111T493gGY0e0m0XGL26Xn+S1vN611b21G3T111T1",
  "11a3164Zj12XnpGYL1Y7122122241C11171Y11428171S141511371gK2f42XIbm041R1211211A1411116141111113",
  "12112111111111121124171414111A1H53151HXK2"]

def modifierCombiningMark : Bounds := boundsOf [
  "XoK221a316132l121331V1"]

def noncharacterCodePoint : Bounds := boundsOf [
  "XzkGX0mE2X--U2X--U2X--U2X--U2X--U2X--U2X--U2X--U2X--U2X--U2X--U2X--U2X--U2X--U2X--U2X--U"]

def otherAlphabetic : Bounds := boundsOf [
  "w51TDo0E11121211Y8BXGD17G1Z57442241X31UGZ6BZ52391314ZA1XSC376KXM22F1253A2T3XQ72222A1A2T3XQ54",
  "22241U231B3XQ81312L2M343XQ7222292A2U1XR53313A1X85XP7131382B2T3XQ7131382B2F1C4XQ71313A1A2T3YB",
  "61118I2XT127I1Z312612G1b3J9B1X4ZEC1124N443132734DC11A4XpK2U2U2U2Y2JbS2X21ZMC49cU5XPA2KYA2B3X",
  "H5XGFXS3U922XPBXIJiSX2Xs1XKYdMX0+ZK8X22h2181N5YO2XIG11XP1X65SCXD4XGCX51Y3EC182XD3XI1132251XC",
  "551dD8nvJ1YYN5Xq631254uK4Y11g12YF1e33XLEXD2B3XD991XT3X4CI2XP3XGDE2YS9216121aTAN4XQ72222A1A2Y",
  "K911211412Z7D13ZAIdD727T2YIF11ZABZ7Ee1DdN612223111aE72641SAXA514IBXEEiN817YJM1EZQ63112131131",
  "Y251214gS49211XG733mkTHZn011XN74YT2pbC1ex171H271215Z41YbN1X-8Q6Q6Q"]

def otherDefaultIgnorableCodePoint : Bounds := boundsOf [
  "wF1ZmF2XoJ2YbF1adU1XnnR1YF9wWW711UZ0a0dGZmG"]

def otherGraphemeExtend : Bounds := boundsOf [
  "YjU1O1h61O1Z61O1d8111421292Z71O1ZN1F1YfL1U1XW01511152Z51Y72XWO1aX12+f31ZC1pkT2an01ZK1e81E191",
  "Z0191211351d01C1dH1e61pP1C1Xm31qbE2uhJ266uhrDZ0"]

def otherIdContinue : Bounds := boundsOf [
  "bN1sF1Z-19Xp81XnH2adD1Xnp91"]

def otherIdStart : Bounds := boundsOf [
  "ca52YaH1L1ZxC2"]

def otherLowercase : Bounds := boundsOf [
  "bA1F1lL972U5Z01XK1Zi11ZXFXVD1X2X5rH1D1GDcJGwGQXyI2+mU2cI1a1332x2491rWM1231XA19XsZLXU"]

def otherMath : Bounds := boundsOf [
  "YU1xH321Q222dX01R3B1X04O2E2Y1D413245I1412A113561322213163455YB5241212111522424I2211171162f24",
  "b8211O1H1jT2C955522235E11126O2XP111T492gM2VAiJMXV4X02XpZ311141cJ111Xrc1YL1Y7122122241C11171Y",
  "11428171S141511371gK2P1P1V1P1V1P1V1P1V1P182XIbm041R1211211A141111614111111312112111111111121",
  "124171414111A1H53151H"]

def otherUppercase : Bounds := boundsOf [
  "eh0Gw6QZnZ0Q6Q6Q"]

def patternSyntax : Bounds := boundsOf [
  "X1FA7Q411Q4X2711121112414131N1V1duOO8F2J1AfHsGb0pMUXW21Z9m0a0i134PF1XneD2e52"]

def patternWhiteSpace : Bounds := boundsOf [
  "95I1Z41dy82O2"]

def prependedConcatenationMark : Bounds := boundsOf [
  "Xm06cN1XH1i02YG1X-+Q1F1"]

def quotationMark : Bounds := boundsOf [
  "X2141a31F1dwS8P2Zm71k94D3Xnn14bT141YQ2"]

def radical : Bounds := boundsOf [
  "hq0Q1YPCcM"]

def regionalIndicator : Bounds := boundsOf [
  "Zwl6Q"]

def sentenceTerminal : Bounds := boundsOf [
  "X11C1G1Xg91aJ3bK1XB3dM1XT11132f52Xt42uM142u51c62aT2XD151fQ2h24b22A222T3bR2Y12z41N293ZbF3fI1D",
  "1M2jD1zdS1eE2d3131hU2YM2YV1aO2aJ3aG2dP1on6122XR132b91C1G1Y11YtK2XdT5XC4bT2ZL4ZV3a1261G2YO212",
  "ZC1fA2ZL2hL25FZ92dP3m5111dR2YN2j42rK2YA2ov92a51Y12B1n92f81pm61dl81"]

def softDotted : Bounds := boundsOf [
  "Z92c41eP1U1XK1K1g01Z2111ce91XJ1D131a41aT1j51cM2YvI1Zdz52XI2XI2XI2XI2XI2XI2XI2XI2XI2XI2XI2XI2",
  "Ya61fH2Q1"]

def terminalPunctuation : Bounds := boundsOf [
  "X11A111B231vU181m11XP1Y81E113bK1XBB11dB2XM618V1e52XdK2bC146fN2uL8u51ZS3Y72aT331X7422fQ2h24b2",
  "2A213T3bR5XU2z41N293ZbF3fI1D141A11232jC2zdR2eD3d35hU2YM2YV1aN3aJ3ZV1G2dP1on6122XP314b91A111B",
  "231Y1121XXQ1XG1Xa61c71fM2aO6Y46YP4zO5XC4bT7ZG4ZV3a1261G2YO5ZC1fA2ZL3C2h643FZ92dP3m5111dR2YN2",
  "42iU3XD1q52YA2XfB5nlP2a51Y13A1n92f72pm61dl74"]

def unifiedIdeograph : Bounds := boundsOf [
  "jW0ck0Y0qm0qmE21112A1111223YXkMXft0X0aXQ6cU2bq2EdfHFpEaj2awB5aZ0"]

def uppercase : Bounds := boundsOf [
  "Y1QZ5N17X11111111111111111111111111111111111111111111111111111111211111111111111121111111111",
  "11111111111111111111111111111111111121111321112132412133212111112112112131112317121212111111",
  "11111111121111111111111111121211311111111111111111111111111111111111111111111111111111111117",
  "212211411111111f11113181611311121H19X31233111111111111111111111115121122XJXG1111111111111111",
  "11111111111111111911111111111111111111111111111111111111111111111111111121111111111112111111",
  "111111111111111111111111111111111111111111111111111111111111111111111111111111111111111112X6",
  "Yw9X61151sIYMYaJ16XB23g011111111111111111111111111111111111111111111111111111111111111111111",
  "11111111111111111111111111111111111111111111111111111111111111111111111111111111191111111111",
  "1111111111111111111111111111111111111111111111111111111111111111111111111111111111111119886A",
  "88886B111111188Y84C4C4C5B4e6141332321356111111424A251QGJ1vIQXvGXGXG1132111111411218311111111",
  "11111111111111111111111111111111111111111111111111111111111111111111111111111111111111111181",
  "1141+gD111111111111111111111111111111111111111111111J111111111111111111111111111a71111111111",
  "11131111111111111111111111111111111111111111111111111111111111111A11112111111114111211131111",
  "1111111111111111515111111111111111411123151111111O1pvBQXc5X8a8X4aSB1F1712XtAXJaTMYvQX0ri0X0v",
  "j0QQQQQQ11221222418QQQ2142817R214151137RQQQQQQQQQQQUPX1PX1PX1PX1PX11afLX2YWEQ6Q6Q"]

def variationSelector : Bounds := boundsOf [
  "cWB311XtlGGwWtGdG"]

def whiteSpace : Bounds := boundsOf [
  "95I1Z41Q1bkV1YhVBT251XF1Zz01"]

def xidContinue : Bounds := boundsOf [
  "XGA7Q411QXF1A111215N1V1kA4CE57111HZL12331165111K1YJ1aB152b61X6216X98XD111212118R44TB5YA4Z618",
  "2A1J21GXR2Z5EXM41212XEIS4B5O168YB1a12A1J18222M1711342922248142152CA1112316422M17121212211542",
  "233174117GB319131M1712152A131321F42A971318222M1712152922237342152A11G216331432111232333C4533",
  "142161EAGD131N1G291314721321242AG418131N1A152913147262142A13CD131XJ131554752AA6131I3O1911273",
  "14611186A22DXQ5F1AX7211151O111N2511171A24X01N26AB111114A1X44K1I1X491XPYA6YE2X611512XB1gD1427",
  "11142X9142X1142711142F1XP142Y32399EGGYM263pC2H1Q5YB3B7M9MBKCD1312CYK31422AX131B6YP7XB5Y6AV1C",
  "4CAX825BXC4Q6BX5S4XV1T2B6AD18E1GXHYD3AH9CZKCXO8A3XH2B5XB23G31X75mM262X626281111111V2XL171133",
  "1734264D5317F2XH2J1S1D1GDXJD413CH1412A11266111111G245541HX9YpNd569CX611512XO71FO971717171717",
  "17171X0m53PF15254YM22231YV5XB1YUHX0XGGm0ck0Y0rqDY3XE2eD3SKXG4A1ZJX592Z72Y3221118LXM41JXKCY6A",
  "A6O311XH2X4CT3Y1EB6V1XN9E2A6N3Y9O32G25A6262697171XB1E6ZR122A6gz4CN4XHce4hE2ZAX67C55C1D151112",
  "121ZCX1aB6cQIY02XMX8A6GGG32O3X1111311111111ZUJA7Q411QAYQ36262623X3C1Q1J121F2EX2ZRY5XLa81a2T3",
  "XHF1VX0DU5XB5U2X44815XAaU2A6X44X44X88XKCB1F17121B1F17123XKCfN9MA8O61XA19Y56211XC12312NAN9VY1",
  "J12AMAQY6XO62Y041258131T2341X0T3TX381UPXMAMAJDIZEY9XNXJDXJDX88A6X6351NdQXA1232G3XNX1A18X1VMX",
  "ALRN9Y7VG9XS71DP7A6XL1A448X4219Y5441D11X3I1X564XU711141F1A7XR5A6418222M1712151A2223216157273",
  "5BA11211X61A11211418D2TYB5A44UY6118Ab6XM29N6X2Y131BAX6XP7A6KSR2F4A67bPXRZ5YAL82128121U1229CA",
  "Y682XE2812RXV818YA31IY9c7X1FA691XD19FAOU2M1EY97121XC3112198A66121X512167AfMN9H1X935DBYL1YFyQ",
  "Z6ZFHc4YoCZ1FXXGGMAZyR5o7crPXQXs6nP7V1A6YF1A6U25BXN94CA9L5JjGXD3Ac6Y0a0YB4XP7HY0212B2Eb-O8Xc",
  "MX9Aet7417121f3F1T321E48iCYe4ZB5D397A32aYHAm6XE2NmU5368827U4aK3jRYL1Y7122122241C11171Y114281",
  "71S141511371gK2P1P1V1P1V1P1V1P1V1P182XIm0XN4XI81E1M51FXYGV66cL71H2712155XUX11ZGXD3E2A41g1VHX",
  "QkMXAcMXBl5714121F1c5B7X9YC4AXb641R1211211A141111614111111312112111111111121124171414111A1H5",
  "3151HZfKAXW6Xft0X0aXQ6cU2bq2EdfHFpEYj2mUXl2awB5aZ0rtgGdG"]

def xidStart : Bounds := boundsOf [
  "Y1Q6QXF1A1415N1V1kA4CE57111a151233116113111K1YJ1aB8b61X6216X9Y7R44XDXBX321Z311F272A321G11UTY",
  "PB1OX192415M419131NP7B5O16HXAXQXM31I17AFG48222M17113431G1D213E2A186422M17121212V411J3G9131M1",
  "7121531I1F2N1B8222M17121531U213F1H116331432111232333CM1XK8131N1G31Q32122U148131N1A1531V212F2",
  "H9131X921G15383O65I3O191127XQXG11D7XQ211151O111A11A12511L4X01XV81X4R5ZJXBK1G6443132734DC1HX6",
  "11512XB1gD142711142X9142X1142711142F1XP142Y3X5GGYM263pC2H1Q5YB3B7IDJEIED13FXKX3141Y3YP7X9115",
  "Y6AVXHU25BXC4QXMN9XLYI1YTXFH8XMUD2AXCQX4X93AX42B5XB23X941612315c0Y0eM262X626281111111V2XL171",
  "1331734264D5317ZK1D1GDZ51412A11266111111G245541HX9YpNd56432CX611512XO71GN9717171717171717n63",
  "P975254YM631YQ145XB1YUHX0XGGm0ck0Y0rqDY3XE2eD3GA2KXFGV2YGX792Z72Y3221118LG13141NTXKEXIXU6311",
  "2BSANPT7XFS1G51AA51X9N318KN313XI1132252111O32B73C6262697171XB1E6ZJTgz4CN4XHce4hE2ZAX67C5511A",
  "1D151112121ZCX1aB6cQIY02XMX8AZN111311111111ZUX4Q6QBXO2V36262623X3C1Q1J121F2EX2ZRY5XLeBT3XHXF",
  "X0DU5X6AU2X44815XAaUIX44X44X88XKCB1F17121B1F17123XKCfN9MA8O61XA19Y56211XC12312NAN9VY1J12AMAQ",
  "Y6XO62Y01F4131TXAT3TX381SRXMAMAJDIZEY9XNXJDXJDX4X6S9NdQXA62G3XRTA18MXAIXELRNCXLXP221DXDX0PQX",
  "4T1218X331CXGE4L111X3I1PJ2XV711141F1A7XFX68222M17121531I1C5UA11211X611P111XCXLI4K3UXGK211bOX",
  "FX94X4XGK1XRXBD1Y7RX57bPXCZKY0V82128121OF111YU82X7G111S1AX871L1BXEJ1IY9c7X1V91X5H1XHUZG7121X",
  "6L1P6121X0E1g7JF11D1X2ZS1YFyQZ6ZFHc4YoCZ1FXXGH6PZyR5o7crPUXt2nP7VHYFHUIXGG4VL5JjGXDcJY0a0YB5",
  "1Y2DY0211Sb-O8XcMX9Aet7417121f3F1T321E48iCYe4ZB5D397Abx6YL1Y7122122241C11171Y11428171S141511",
  "371gK2P1P1V1P1V1P1V1P1V1P18XvKV66e5XUaIXDA7G1g1UIXCl4Sd4U21lF714121F1c5XRY471XbK41R1211211A1",
  "41111614111111312112111111111121124171414111A1H53151Hag4Xft0X0aXQ6cU2bq2EdfHFpEYj2mUXl2awB5a",
  "Z0"]

/-- The properties by their names. -/
def properties : List (List String × Bounds) := [
  (["ahex", "asciihexdigit"], asciiHexDigit), (["alpha", "alphabetic"], alphabetic),
  (["bidic", "bidicontrol"], bidiControl), (["ci", "caseignorable"], caseIgnorable),
  (["cased"], cased), (["cwcf", "changeswhencasefolded"], changesWhenCasefolded),
  (["cwcm", "changeswhencasemapped"], changesWhenCasemapped),
  (["cwl", "changeswhenlowercased"], changesWhenLowercased),
  (["cwt", "changeswhentitlecased"], changesWhenTitlecased),
  (["cwu", "changeswhenuppercased"], changesWhenUppercased), (["dash"], dash),
  (["di", "defaultignorablecodepoint"], defaultIgnorableCodePoint),
  (["dep", "deprecated"], deprecated), (["dia", "diacritic"], diacritic), (["emoji"], emoji),
  (["ecomp", "emojicomponent"], emojiComponent), (["emod", "emojimodifier"], emojiModifier),
  (["ebase", "emojimodifierbase"], emojiModifierBase),
  (["epres", "emojipresentation"], emojiPresentation),
  (["extpict", "extendedpictographic"], extendedPictographic), (["ext", "extender"], extender),
  (["grbase", "graphemebase"], graphemeBase), (["grext", "graphemeextend"], graphemeExtend),
  (["grlink", "graphemelink"], graphemeLink), (["hex", "hexdigit"], hexDigit),
  (["hyphen"], hyphen), (["idsb", "idsbinaryoperator"], idsBinaryOperator),
  (["idst", "idstrinaryoperator"], idsTrinaryOperator),
  (["idsu", "idsunaryoperator"], idsUnaryOperator),
  (["idcompatmathcontinue"], idCompatMathContinue), (["idcompatmathstart"], idCompatMathStart),
  (["idc", "idcontinue"], idContinue), (["ids", "idstart"], idStart),
  (["ideo", "ideographic"], ideographic), (["joinc", "joincontrol"], joinControl),
  (["loe", "logicalorderexception"], logicalOrderException), (["lower", "lowercase"], lowercase),
  (["math"], math), (["mcm", "modifiercombiningmark"], modifierCombiningMark),
  (["nchar", "noncharactercodepoint"], noncharacterCodePoint),
  (["oalpha", "otheralphabetic"], otherAlphabetic),
  (["odi", "otherdefaultignorablecodepoint"], otherDefaultIgnorableCodePoint),
  (["ogrext", "othergraphemeextend"], otherGraphemeExtend),
  (["oidc", "otheridcontinue"], otherIdContinue), (["oids", "otheridstart"], otherIdStart),
  (["olower", "otherlowercase"], otherLowercase), (["omath", "othermath"], otherMath),
  (["oupper", "otheruppercase"], otherUppercase), (["patsyn", "patternsyntax"], patternSyntax),
  (["patws", "patternwhitespace"], patternWhiteSpace),
  (["pcm", "prependedconcatenationmark"], prependedConcatenationMark),
  (["qmark", "quotationmark"], quotationMark), (["radical"], radical),
  (["ri", "regionalindicator"], regionalIndicator),
  (["sterm", "sentenceterminal"], sentenceTerminal), (["sd", "softdotted"], softDotted),
  (["term", "terminalpunctuation"], terminalPunctuation),
  (["uideo", "unifiedideograph"], unifiedIdeograph), (["upper", "uppercase"], uppercase),
  (["vs", "variationselector"], variationSelector),
  (["wspace", "whitespace", "space"], whiteSpace), (["xidc", "xidcontinue"], xidContinue),
  (["xids", "xidstart"], xidStart)]

end AttrGrammar.Text.Unicode
